import Zre.Proofs.Licences
import Zre.Proofs.Wires

/-!
# Proofs: what a refused HELLO leaves behind

`_handle_hello` gives a HELLO up for want of an endpoint, of an endpoint that it can read, of a key, or of a
connection. Two things are written before that: the counter of a sender that has a record starts anew, and the key
that an unknown sender announces is remembered. Nothing else is.
-/

namespace Zre

open Fallible

namespace Node

/-- The exits of `_handle_hello` at which the HELLO of another node is given up. -/
inductive Refuses (env : Env) (n : Node) (k : Str) (h : HelloFields) : Prop where
  | empty (he : h.endpoint = [])
  | unparsable {e : PyError} (hk : n.peers.get k = none)
      (hs : splitEndpoint n.cfg.rt (endpointText h.endpoint) = .error e)
  | keyless {addr : Str} {port : Int} (hk : n.peers.get k = none)
      (hs : splitEndpoint n.cfg.rt (endpointText h.endpoint) = .ok (addr, port))
      (hq : n.pendingMatch (dialHost addr) port k = none) (hc : n.cfg.curveSecret.isSome)
      (hkey : (n.learnHelloKeys k h).serverKeyFor (dialHost addr) port (some k) = none)
  | failed {addr : Str} {port : Int} (hk : n.peers.get k = none)
      (hs : splitEndpoint n.cfg.rt (endpointText h.endpoint) = .ok (addr, port))
      (hq : n.pendingMatch (dialHost addr) port k = none)
      (hf : env.connect n.sockets = false ∨ n.cfg.curveSecret.isSome ∧ n.cfg.curvePublic = none)

/-- The tables, the queues, the throttles and the objects are what they were. A failed attempt to connect has used
up an object and a socket that are in no table. -/
structure Untouched (n n' : Node) : Prop where
  rest : n' = { n with obj := n'.obj, nextRef := n'.nextRef, sockets := n'.sockets }
  obj : ∀ r, r < n.nextRef → n'.obj r = n.obj r

/-- What is left of the HELLO `h` of `k`: a record that starts to count anew if there was no endpoint, and the
announced key if there was one. -/
structure Residue (n n' : Node) (k : Str) (h : HelloFields) : Prop where
  rest : n' = { n with
    obj := n'.obj, nextRef := n'.nextRef, sockets := n'.sockets, peerServerKeys := n'.peerServerKeys }
  obj : ∀ r, r < n.nextRef → n'.obj r =
    if h.endpoint = [] ∧ n.peers.get k = some r then { n.obj r with wantSeq := 1 } else n.obj r
  keys : ∀ x, n'.peerServerKeys.get x =
    if h.endpoint ≠ [] ∧ x = k ∧ n.peers.get k = none then (helloKey n.cfg.rt h).or (n.peerServerKeys.get x)
    else n.peerServerKeys.get x

/-! ## The exits -/

section Exits

variable {env : Env} {n : Node} {k addr : Str} {port : Int} {h : HelloFields}

/-- Something that a dial needs is wanting: a key of the peer, if the node has one of its own, the public half of
its own, or the connection. -/
def Unable (env : Env) (n : Node) (addr : Str) (port : Int) (rhex : Option Str) : Prop :=
  (n.cfg.curveSecret.isSome ∧ n.serverKeyFor addr port rhex = none) ∨ env.connect n.sockets = false ∨
    n.cfg.curveSecret.isSome ∧ n.cfg.curvePublic = none

theorem openPeer_fails {uuidHex : Str} {rhex : Option Str} (hf : n.Unable env addr port rhex) :
    n.openPeer env uuidHex addr port rhex = (none, n) ∨
      n.openPeer env uuidHex addr port rhex = (none, n.allocated (Peer.new uuidHex addr port)) := by
  unfold Unable at hf
  unfold openPeer curveClientArgs connect
  cases hsec : n.cfg.curveSecret with
  | none =>
    have hconn : env.connect n.sockets = false := by simpa [hsec] using hf
    right
    simp [hconn, allocated, alloc, setObj, Peer.new]
  | some sec =>
    cases hkey : n.serverKeyFor addr port rhex with
    | none => left; simp
    | some key =>
      right
      cases hpub : n.cfg.curvePublic with
      | none => simp [allocated, alloc, setObj, Peer.new]
      | some pub =>
        have hconn : env.connect n.sockets = false := by simpa [hsec, hkey, hpub] using hf
        simp [hconn, allocated, alloc, setObj, Peer.new]

theorem openPeer_opens {uuidHex : Str} {rhex : Option Str} (hf : ¬ n.Unable env addr port rhex) :
    (n.openPeer env uuidHex addr port rhex).1 = some n.nextRef := by
  unfold Unable at hf
  push Not at hf
  obtain ⟨hkey, hconn, hpub⟩ := hf
  rw [ne_eq, Bool.not_eq_false] at hconn
  unfold openPeer curveClientArgs connect
  cases hsec : n.cfg.curveSecret with
  | none => simp [hconn, alloc, setObj, Peer.new]
  | some sec =>
    obtain ⟨key, hkey⟩ := Option.ne_none_iff_exists'.1 (hkey (by simp [hsec]))
    obtain ⟨pub, hpub⟩ := Option.ne_none_iff_exists'.1 (hpub (by simp [hsec]))
    simp [hkey, hpub, hconn, alloc, setObj, Peer.new]

/-- The object of a failed dial is in no table. -/
theorem dialPeer_fails (hf : n.Unable env addr port (some k)) :
    ∃ n', n.dialPeer env k addr port = (none, n') ∧ Untouched n n' := by
  unfold dialPeer
  rcases @openPeer_fails _ _ _ _ k _ hf with h | h <;> rw [h]
  · exact ⟨n, rfl, rfl, fun _ _ => rfl⟩
  · refine ⟨_, rfl, rfl, fun r hr => ?_⟩
    rw [allocated_obj, if_neg (Nat.ne_of_lt hr)]

/-- An unknown sender is given up after its key was learned. -/
theorem helloFromNew_refused (hk : n.peers.get k = none) (hne : h.endpoint ≠ []) (hr : Refuses env n k h) :
    ∃ n', n.helloFromNew env k h = .ok n' ∧ Residue n n' k h := by
  obtain ⟨keys, hkeys, hget⟩ := learnHelloKeys_eq n k h
  have hres : ∀ {n'}, Untouched { n with peerServerKeys := keys } n' → Residue n n' k h := by
    intro n' hu
    have hkeys' : n'.peerServerKeys = keys := by rw [hu.rest]
    refine ⟨by rw [hkeys']; exact hu.rest, fun r hlt => ?_, fun x => ?_⟩
    · rw [hu.obj r hlt, if_neg fun he => hne he.1]
    · rw [hkeys', hget]
      by_cases hx : k = x
      · rw [if_pos hx, if_pos ⟨hne, hx.symm, hk⟩]
      · rw [if_neg hx, if_neg fun he => hx he.2.1.symm]
  have hdial : ∀ addr port, splitEndpoint n.cfg.rt (endpointText h.endpoint) = .ok (addr, port) →
      n.pendingMatch (dialHost addr) port k = none →
      { n with peerServerKeys := keys }.Unable env (dialHost addr) port (some k) →
      ∃ n', n.helloFromNew env k h = .ok n' ∧ Residue n n' k h := by
    intro addr port hs hq hf
    have hadopt : { n with peerServerKeys := keys }.adoptPending env (dialHost addr) port k =
        (none, { n with peerServerKeys := keys }) := by
      have hq' : { n with peerServerKeys := keys }.pendingMatch (dialHost addr) port k = none := hq
      unfold adoptPending
      rw [hq']
    obtain ⟨n', hd, hu⟩ := dialPeer_fails (n := { n with peerServerKeys := keys }) hf
    refine ⟨n', ?_, hres hu⟩
    unfold helloFromNew
    simp only [hkeys, hs, hadopt, hd]
  cases hr with
  | empty he => exact absurd he hne
  | unparsable _ hs =>
    refine ⟨{ n with peerServerKeys := keys }, ?_, hres ⟨rfl, fun _ _ => rfl⟩⟩
    unfold helloFromNew
    simp only [hkeys, hs]
  | @keyless addr port _ hs hq hc hkey => exact hdial addr port hs hq (Or.inl ⟨hc, hkeys ▸ hkey⟩)
  | @failed addr port _ hs hq hf => exact hdial addr port hs hq (Or.inr hf)

/-- The HELLO of an unknown sender that is not refused brings it into the table. -/
theorem helloFromNew_held (hk : n.peers.get k = none) (hr : ¬ Refuses env n k h) :
    Ensures (n.helloFromNew env k h) fun n' => n'.peers.get k ≠ none := by
  obtain ⟨keys, hkeys, -⟩ := learnHelloKeys_eq n k h
  have henter : ∀ {m : Node} {r : Ref} {b : Bool}, m.peers.get k = some r →
      Ensures (m.enterPeer env k r h (endpointText h.endpoint) b) fun n' => n'.peers.get k ≠ none := by
    intro m r b hm n' hn'
    rw [(enterPeer_record env m k r h _ b n' hn').1, hm]
    simp
  unfold helloFromNew
  simp only [hkeys]
  cases hs : splitEndpoint n.cfg.rt (endpointText h.endpoint) with
  | error e => exact absurd (Refuses.unparsable hk hs) hr
  | ok ep =>
    obtain ⟨addr, port⟩ := ep
    simp only []
    cases ha : { n with peerServerKeys := keys }.adoptPending env (dialHost addr) port k with
    | mk o n1 =>
      cases o with
      | some r =>
        obtain ⟨key, rfl, -⟩ := adoptPending_some ha
        exact henter (adoptUnder_peers env _ key r k)
      | none =>
        obtain ⟨rfl, hq⟩ := adoptPending_none ha
        simp only []
        have hable : ¬ { n with peerServerKeys := keys }.Unable env (dialHost addr) port (some k) := by
          rintro (⟨hc, hkey⟩ | hf)
          · exact hr (.keyless hk hs hq hc (hkeys ▸ hkey))
          · exact hr (.failed hk hs hq hf)
        have hopen := @openPeer_opens _ _ _ _ k _ hable
        cases hd : { n with peerServerKeys := keys }.dialPeer env k (dialHost addr) port with
        | mk o n2 =>
          cases o with
          | some r => exact henter (dialPeer_peers hd)
          | none =>
            unfold dialPeer at hd
            split at hd
            · cases hd
            · rename_i hnone
              rw [hnone] at hopen
              cases hopen

end Exits

/-! ## Frames -/

section Frames

variable {n : Node} {env : Env} {frames extra : List Bytes} {uuid : Bytes} {msg : Msg} {h : HelloFields}

/-- The HELLO of an unknown node: it has no counter to reset, and no throttle to lift. -/
theorem Reachable.step_unknown (hn : n.Reachable) (hc : Carries frames uuid msg extra) (hf : msg.fields = .hello h)
    (hown : hex uuid ≠ n.cfg.peerIdHex) (hk : n.peers.get (hex uuid) = none) (he : h.endpoint ≠ []) :
    n.step env (.peerMsg frames) = n.helloFromNew env (hex uuid) h := by
  obtain ⟨rid, data, rfl, hu, hd⟩ := hc
  have hreset : n.resetSeq (hex uuid) = n := by
    unfold resetSeq
    rw [hk]
  have hpop : { n with evasiveEmitAt := n.evasiveEmitAt.pop (hex uuid) } = n := by
    have hnone : n.evasiveEmitAt.get (hex uuid) = none := not_not.1 fun ht => hn.throttled _ ht hk
    rw [Dict.pop_eq_self _ hnone]
  refine (handlePeerMsg_hello env hu hd hf extra).trans ?_
  rw [hreset, hk]
  unfold handleHello
  rw [if_neg (by simp [hn.running]), if_neg hown, if_neg he]
  simp only [hpop, hk]

/-- A refused HELLO resets the counter of its sender's record if it has no endpoint, is remembered for its key if
it has one, and leaves everything else as it was. -/
theorem Reachable.refused_hello (hn : n.Reachable) (hc : Carries frames uuid msg extra)
    (hf : msg.fields = .hello h) (hown : hex uuid ≠ n.cfg.peerIdHex) (hr : Refuses env n (hex uuid) h) :
    ∃ n', n.step env (.peerMsg frames) = .ok n' ∧ Residue n n' (hex uuid) h := by
  by_cases he : h.endpoint = []
  · obtain ⟨rid, data, rfl, hu, hd⟩ := hc
    have hrun : (n.resetSeq (hex uuid)).running = true := by
      unfold resetSeq
      split <;> exact hn.running
    have hcfg : (n.resetSeq (hex uuid)).cfg = n.cfg := moves_cfg (moves_resetSeq anything anything n _).1
    refine ⟨n.resetSeq (hex uuid), ?_, ?_⟩
    · refine (handlePeerMsg_hello env hu hd hf extra).trans ?_
      unfold handleHello
      simp [hrun, hcfg, hown, he]
    · unfold resetSeq
      cases hk : n.peers.get (hex uuid) with
      | none => exact ⟨rfl, fun r _ => by simp [hk], fun x => by simp [he]⟩
      | some r =>
        refine ⟨rfl, fun s _ => ?_, fun x => by simp [he, setObj]⟩
        show (n.setObj r _).obj s = _
        rw [setObj_obj]
        by_cases hs : s = r
        · rw [if_pos hs, if_pos ⟨he, by rw [hs, hk]⟩, hs]
        · rw [if_neg hs, if_neg fun h => hs (Option.some.inj (hk.symm.trans h.2)).symm]
  · have hk : n.peers.get (hex uuid) = none := by
      cases hr with
      | empty he' => exact absurd he' he
      | unparsable hk => exact hk
      | keyless hk => exact hk
      | failed hk => exact hk
    rw [hn.step_unknown hc hf hown hk he]
    exact helloFromNew_refused hk he hr

/-- The HELLO of an unknown node is refused exactly when the node stays unknown. -/
theorem Reachable.refuses_iff (hn : n.Reachable) (hc : Carries frames uuid msg extra) (hf : msg.fields = .hello h)
    (hown : hex uuid ≠ n.cfg.peerIdHex) (hk : n.peers.get (hex uuid) = none) :
    Ensures (n.step env (.peerMsg frames)) fun n' =>
      Refuses env n (hex uuid) h ↔ n'.peers.get (hex uuid) = none := by
  intro n' hs
  constructor
  · intro hr
    obtain ⟨m, hm, hres⟩ := hn.refused_hello hc hf hown hr
    rw [hm] at hs
    cases hs
    rw [hres.rest]
    exact hk
  · intro hgone
    by_contra hr
    have he : h.endpoint ≠ [] := fun he => hr (.empty he)
    rw [hn.step_unknown hc hf hown hk he] at hs
    exact helloFromNew_held hk hr n' hs hgone

end Frames

/-! ## Two refused HELLOs -/

/-- A HELLO of the peer `00…02` without an endpoint. -/
def sampleSilentFields : HelloFields := { sampleFields with endpoint := [] }

/-- A HELLO of the peer `00…02` with a key and an endpoint that cannot be read. -/
def sampleGarbledFields : HelloFields :=
  { sampleFields with endpoint := encodeStr "nowhere|0123456789abcdef0123456789abcdef".toList }

/-- The frames of a HELLO of the peer `00…02`. -/
def sampleHelloOf (h : HelloFields) : List Bytes := [1 :: sampleUuid, Codec.helloBytes 1 h]

theorem sampleHelloOf_carries {h : HelloFields} (hfits : Codec.HelloFits h) :
    Carries (sampleHelloOf h) sampleUuid ⟨Cmd.hello, zreVersion, 1, .hello h⟩ [] :=
  ⟨_, _, rfl, by decide +kernel, Codec.decode_hello (by decide) hfits⟩

theorem sampleGarbledFields_refused (env : Env) : Refuses env sampleA (hex sampleUuid) sampleGarbledFields := by
  have hraised : raised (splitEndpoint sampleA.cfg.rt (endpointText sampleGarbledFields.endpoint)) =
      some .indexError := by decide +kernel
  exact .unparsable rfl (eq_error_of_raised hraised)

theorem refused_hello_sample : ∃ n',
    sampleA.step (Env.calm 0) (.peerMsg (sampleHelloOf sampleGarbledFields)) = .ok n' ∧
    Residue sampleA n' (hex sampleUuid) sampleGarbledFields :=
  (Reachable.init _).refused_hello (sampleHelloOf_carries (by constructor <;> decide +kernel)) rfl (by decide +kernel)
    (sampleGarbledFields_refused _)

/-- A refused HELLO leaves nothing behind. -/
def RefusedUntouched (P : HelloFields → Prop) : Prop :=
  ∀ (n : Node) (env : Env) (frames extra : List Bytes) (uuid : Bytes) (msg : Msg) (h : HelloFields),
    n.Reachable → Carries frames uuid msg extra → msg.fields = .hello h → P h →
    hex uuid ≠ n.cfg.peerIdHex → Refuses env n (hex uuid) h → ∃ n', n.step env (.peerMsg frames) = .ok n' ∧ Untouched n n'

/-- The counter of a peer is reset by a HELLO without an endpoint, and a HELLO with an endpoint leaves its key. -/
theorem not_refused_untouched : ¬ RefusedUntouched (fun h => h.endpoint = []) ∧
    ¬ RefusedUntouched (fun h => h.endpoint ≠ []) := by
  constructor
  · intro hall
    have hn : sampleGreeted.Reachable := Reachable.after (.init _) _ _
    have hstep : sampleGreeted.step (Env.calm 0) (.peerMsg (sampleHelloOf sampleSilentFields)) =
        .ok (sampleGreeted.after (Env.calm 0) (.peerMsg (sampleHelloOf sampleSilentFields))) :=
      step_after _ (by decide +kernel)
    obtain ⟨n', hs, hu⟩ := hall sampleGreeted (Env.calm 0) (sampleHelloOf sampleSilentFields) [] sampleUuid _
      sampleSilentFields hn (sampleHelloOf_carries (by constructor <;> decide +kernel)) rfl rfl (by decide +kernel)
      (.empty rfl)
    obtain rfl := Except.ok.inj (hstep.symm.trans hs)
    exact absurd (congrArg Peer.wantSeq (hu.obj 0 (by decide +kernel))) (by decide +kernel)
  · intro hall
    have hn : sampleA.Reachable := .init _
    have hstep : sampleA.step (Env.calm 0) (.peerMsg (sampleHelloOf sampleGarbledFields)) =
        .ok (sampleA.after (Env.calm 0) (.peerMsg (sampleHelloOf sampleGarbledFields))) :=
      step_after _ (by decide +kernel)
    obtain ⟨n', hs, hu⟩ := hall sampleA (Env.calm 0) (sampleHelloOf sampleGarbledFields) [] sampleUuid _
      sampleGarbledFields hn (sampleHelloOf_carries (by constructor <;> decide +kernel)) rfl (by decide +kernel)
      (by decide +kernel) (sampleGarbledFields_refused _)
    obtain rfl := Except.ok.inj (hstep.symm.trans hs)
    have hkeys := congrArg (fun m : Node => m.peerServerKeys.get (hex sampleUuid)) hu.rest
    exact absurd hkeys (by decide +kernel)

end Node

end Zre
