import Zre.Proofs.Crash
import Zre.Proofs.Endpoints
import Zre.Proofs.Utf8

/-!
# Proofs: the collision guard

A HELLO with the node's own uuid is taken for a loop-back when its endpoint has the inbox port. What the
node announces is the advertised endpoint, or one of its addresses with the inbox port. The two agree on
an endpoint exactly when it is announced and has that port, or is not announced and has another one.
-/

namespace Zre

open Fallible

namespace Node

variable {env : Env} {n : Node}

/-- The endpoints that the node announces, to one peer or another. -/
def AnnouncesEndpoint (env : Env) (n : Node) (endpoint : Bytes) : Prop :=
  ∃ peerAddr, n.publicEndpointFor env peerAddr = .ok endpoint

/-- The addresses that the node takes for its own, towards one peer or another. -/
def HasAddress (env : Env) (n : Node) (own : Str) : Prop :=
  ∃ peerAddr, n.ownAddressFor env (stripBrackets peerAddr) = .ok own

/-- The endpoint can be read, and has this port. -/
def NamesPort (rt : Runtime) (endpoint : Bytes) (port : Int) : Prop :=
  endpoint ≠ [] ∧ ∃ host, splitEndpoint rt (bdec endpoint) = .ok (host, port)

/-! ## What is announced -/

theorem announcesEndpoint_advertised {ep : WireString} (ha : n.cfg.advertisedEndpoint = some ep)
    (hne : ep.raw ≠ []) (endpoint : Bytes) : n.AnnouncesEndpoint env endpoint ↔ endpoint = ep.raw := by
  have hpublic : ∀ addr, n.publicEndpointFor env addr = .ok ep.raw := fun addr => by
    simp only [publicEndpointFor, ha, if_neg hne]
  constructor
  · rintro ⟨addr, h⟩
    rw [hpublic addr] at h
    exact (Except.ok.inj h).symm
  · rintro rfl
    exact ⟨[], hpublic []⟩

theorem announcesEndpoint_probed (ha : ∀ ep, n.cfg.advertisedEndpoint = some ep → ep.raw = [])
    (endpoint : Bytes) :
    n.AnnouncesEndpoint env endpoint ↔
      ∃ own, n.HasAddress env own ∧ endpoint = encodeStr (tcpAddress own n.cfg.inboxPort) := by
  have hpublic : ∀ addr, n.publicEndpointFor env addr = (do
      let own ← n.ownAddressFor env (stripBrackets addr)
      return encodeStr (tcpAddress own n.cfg.inboxPort)) := fun addr => by
    unfold publicEndpointFor
    split
    · rename_i ep hep
      rw [if_pos (ha ep hep)]
    · rfl
  constructor
  · rintro ⟨addr, h⟩
    rw [hpublic addr] at h
    obtain ⟨own, hown, h⟩ := bind_eq_ok_iff.1 h
    exact ⟨own, ⟨addr, hown⟩, (Except.ok.inj h).symm⟩
  · rintro ⟨own, ⟨addr, hown⟩, rfl⟩
    exact ⟨addr, by rw [hpublic addr, hown]; rfl⟩

/-- Without an advertised endpoint a node announces its inbox port, as long as its addresses have no
brackets. -/
theorem announcesEndpoint_namesPort (hrt : n.cfg.rt.ReadsDigits)
    (hport : n.cfg.inboxPort < 65536)
    (ha : ∀ ep, n.cfg.advertisedEndpoint = some ep → ep.raw = [])
    (hown : ∀ own, n.HasAddress env own → '[' ∉ own ∧ ']' ∉ own) {endpoint : Bytes}
    (h : n.AnnouncesEndpoint env endpoint) : NamesPort n.cfg.rt endpoint n.cfg.inboxPort := by
  obtain ⟨own, haddr, rfl⟩ := (announcesEndpoint_probed ha endpoint).1 h
  obtain ⟨hopen, hclose⟩ := hown own haddr
  have hsplit := splitEndpoint_tcpAddress hrt hport hopen hclose
  have hne : encodeStr (tcpAddress own n.cfg.inboxPort) ≠ [] := by
    intro h
    have hback := bdec_encodeStr (tcpAddress own n.cfg.inboxPort)
    rw [h] at hback
    obtain ⟨host, hsplit⟩ := hsplit
    rw [← hback] at hsplit
    cases hsplit
  exact ⟨hne, by rw [bdec_encodeStr]; exact hsplit⟩

/-! ## What is detected -/

theorem helloPort_eq_some (endpoint : Bytes) (port : Int) :
    n.helloPort endpoint = some port ↔ NamesPort n.cfg.rt endpoint port := by
  unfold helloPort NamesPort
  by_cases hne : endpoint = []
  · simp [hne]
  rw [if_neg hne]
  cases hs : splitEndpoint n.cfg.rt (bdec endpoint) with
  | error e => simp
  | ok res =>
    obtain ⟨host, p⟩ := res
    simp [hne]

/-- An own HELLO raises exactly when its endpoint does not have the inbox port. -/
theorem handleHello_own (hrun : n.running = true) (h : HelloFields) (existing : Option Ref) :
    (∃ e : PyError, e.IsCollision ∧ n.handleHello env n.cfg.peerIdHex h existing = .error e) ↔
      ¬ NamesPort n.cfg.rt h.endpoint n.cfg.inboxPort := by
  rw [← helloPort_eq_some]
  unfold handleHello
  rw [if_neg (by simp [hrun]), if_pos rfl]
  split
  · rename_i hport
    simp [hport]
  · rename_i hport
    exact iff_of_true ⟨.uuidCollisionHello h.endpoint, trivial, rfl⟩ hport

/-- The guard is exact on an endpoint exactly when the endpoint is announced and has the inbox port, or is
not announced and does not have it. It fails on an advertised endpoint with another port, and on an
endpoint of another host with the same port. -/
theorem Reachable.detects_iff (hn : n.Reachable) (env : Env) (h : HelloFields) (existing : Option Ref) :
    ((∃ e : PyError, e.IsCollision ∧ n.handleHello env n.cfg.peerIdHex h existing = .error e) ↔
        ¬ n.AnnouncesEndpoint env h.endpoint) ↔
      (n.AnnouncesEndpoint env h.endpoint → NamesPort n.cfg.rt h.endpoint n.cfg.inboxPort) ∧
        (¬ n.AnnouncesEndpoint env h.endpoint → ¬ NamesPort n.cfg.rt h.endpoint n.cfg.inboxPort) := by
  rw [handleHello_own hn.running, not_iff_not]
  constructor
  · intro hiff
    exact ⟨hiff.2, mt hiff.1⟩
  · rintro ⟨hown, hforeign⟩
    exact ⟨fun hport => by_contra fun hann => hforeign hann hport, hown⟩

/-- The HELLO of a node with the same uuid and the same port on another host. -/
def sampleTwin : HelloFields :=
  ⟨encodeStr "tcp://10.0.0.9:4001".toList, [], 0, [0x41], Dict.empty⟩

theorem sampleA_announces (endpoint : Bytes) :
    sampleA.AnnouncesEndpoint (Env.calm 0) endpoint ↔ endpoint = encodeStr "tcp://127.0.0.1:4001".toList := by
  have hown : ∀ own, sampleA.HasAddress (Env.calm 0) own ↔ own = "127.0.0.1".toList := fun own => by
    constructor
    · rintro ⟨addr, h⟩
      exact (Except.ok.inj h).symm
    · rintro rfl
      exact ⟨[], rfl⟩
  rw [announcesEndpoint_probed (by rintro _ ⟨⟩)]
  constructor
  · rintro ⟨own, h, rfl⟩
    rw [(hown own).1 h]
    decide +kernel
  · rintro rfl
    exact ⟨_, (hown _).2 rfl, by decide +kernel⟩

/-- The node's own HELLO comes back to it. -/
theorem detects_sample : (∃ e : PyError, e.IsCollision ∧ sampleA.handleHello (Env.calm 0)
    sampleA.cfg.peerIdHex ⟨encodeStr "tcp://127.0.0.1:4001".toList, [], 0, [0x41], Dict.empty⟩ none =
      .error e) ↔
    ¬ sampleA.AnnouncesEndpoint (Env.calm 0) (encodeStr "tcp://127.0.0.1:4001".toList) := by
  have hann := (sampleA_announces _).2 rfl
  have hsplit : splitEndpoint sampleA.cfg.rt (bdec (encodeStr "tcp://127.0.0.1:4001".toList)) =
      .ok ("127.0.0.1".toList, (sampleA.cfg.inboxPort : Int)) := by decide +kernel
  refine (Reachable.detects_iff (.init sampleA.cfg) (Env.calm 0) _ none).2 ⟨fun _ => ?_, absurd hann⟩
  exact ⟨by decide +kernel, _, hsplit⟩

/-- A node with the same uuid and the same port on another host is not detected. -/
theorem not_detects : ¬ ∀ n : Node, n.Reachable → ∀ (env : Env) (h : HelloFields) (existing : Option Ref),
    (∃ e : PyError, e.IsCollision ∧ n.handleHello env n.cfg.peerIdHex h existing = .error e) ↔
      ¬ n.AnnouncesEndpoint env h.endpoint := by
  intro hall
  have hann : ¬ sampleA.AnnouncesEndpoint (Env.calm 0) sampleTwin.endpoint := by
    rw [sampleA_announces]
    decide +kernel
  obtain ⟨e, -, he⟩ := (hall sampleA (.init sampleA.cfg) (Env.calm 0) sampleTwin none).2 hann
  have hnone : raised (sampleA.handleHello (Env.calm 0) sampleA.cfg.peerIdHex sampleTwin none) = none := by
    decide +kernel
  rw [he] at hnone
  cases hnone

/-- A node whose advertised endpoint has another port stops on its own HELLO. -/
theorem advertised_stops (hn : n.Reachable) {ep : WireString} (ha : n.cfg.advertisedEndpoint = some ep)
    (hne : ep.raw ≠ []) (hport : ¬ NamesPort n.cfg.rt ep.raw n.cfg.inboxPort) {h : HelloFields}
    (hh : n.AnnouncesEndpoint env h.endpoint) (existing : Option Ref) :
    ∃ e : PyError, e.IsCollision ∧ n.handleHello env n.cfg.peerIdHex h existing = .error e := by
  rw [handleHello_own hn.running, (announcesEndpoint_advertised ha hne h.endpoint).1 hh]
  exact hport

/-- A node that advertises nothing is never stopped by its own HELLO. -/
theorem probed_returns (hn : n.Reachable) (hrt : n.cfg.rt.ReadsDigits) (hport : n.cfg.inboxPort < 65536)
    (ha : ∀ ep, n.cfg.advertisedEndpoint = some ep → ep.raw = [])
    (hown : ∀ own, n.HasAddress env own → '[' ∉ own ∧ ']' ∉ own) {h : HelloFields}
    (hh : n.AnnouncesEndpoint env h.endpoint) (existing : Option Ref) :
    n.handleHello env n.cfg.peerIdHex h existing = .ok n := by
  have hnames := (helloPort_eq_some _ _).2 (announcesEndpoint_namesPort hrt hport ha hown hh)
  unfold handleHello
  rw [if_neg (by simp [hn.running]), if_pos rfl, if_pos hnames]

end Node

end Zre
