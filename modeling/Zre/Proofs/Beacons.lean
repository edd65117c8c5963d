import Zre.Beacons
import Zre.Proofs.Broadcasts
import Zre.Lib.Fallible

/-!
# Proofs: where beacons go

Every datagram of a run was sent from an address and to a target that one and the same lookup gave, whatever failed
in between. So the beacons of a pinned node stay on its interface as long as that can be looked up.
-/

namespace Zre

open Writing Fallible

namespace Sender

/-- The address and the targets that one lookup gives. -/
inductive Aim (cfg : Config) (lan : SendLan) : Option Str → List (Str × Nat) → Prop where
  | free {found : List Str} (hip : cfg.resolveInterfaceIp lan.toEnv = .ok [])
      (hf : lan.localSubnetBroadcasts = .ok found) : Aim cfg lan none (everywhere cfg.beaconPort found)
  | blind {ip : Str} {found : List Str} (hip : cfg.resolveInterfaceIp lan.toEnv = .ok ip) (hne : ip ≠ [])
      (hb : lan.interfaceBroadcast cfg.interface = .ok []) (hf : lan.localSubnetBroadcasts = .ok found) :
      Aim cfg lan (some ip) (everywhere cfg.beaconPort found)
  | pinned {ip b : Str} (hip : cfg.resolveInterfaceIp lan.toEnv = .ok ip) (hne : ip ≠ [])
      (hb : lan.interfaceBroadcast cfg.interface = .ok b) (hbne : b ≠ []) :
      Aim cfg lan (some ip) [(b, cfg.beaconPort), (loopback, cfg.beaconPort)]

theorem exec_lift {α : Type} (x : Except PyError α) (s : Sender) : exec (lift x) s = (x, s) := by
  cases x <;> rfl

/-- `_build_send_sock` takes the targets from one lookup, or raises and leaves no socket. -/
theorem buildSendSock_aims (lan : SendLan) (s : Sender) :
    (∃ src ts, exec (buildSendSock lan) s = (.ok ⟨⟩, { s with sendSock := some src, sendTargets := ts }) ∧
      Aim s.cfg lan src ts) ∨
    ∃ e ts, exec (buildSendSock lan) s = (.error e, { s with sendSock := none, sendTargets := ts }) := by
  unfold buildSendSock
  simp only [exec_bind, exec_modify, exec_get, exec_lift]
  cases hf : lan.localSubnetBroadcasts with
  | error e => exact Or.inr ⟨e, _, rfl⟩
  | ok found =>
    simp only []
    by_cases hu : lan.udpSocket false = true
    · simp only [hu, Bool.not_true, Bool.false_eq_true, if_false, exec_bind, exec_lift]
      cases hip : s.cfg.resolveInterfaceIp lan.toEnv with
      | error e => exact Or.inr ⟨e, _, rfl⟩
      | ok ip =>
        simp only []
        by_cases hne : ip = []
        · subst hne
          exact Or.inl ⟨none, _, rfl, .free hip hf⟩
        · simp only [if_neg hne]
          by_cases hbind : lan.bind ip = true
          · simp only [hbind, Bool.not_true, Bool.false_eq_true, if_false, exec_bind, exec_lift]
            cases hb : lan.interfaceBroadcast s.cfg.interface with
            | error e => exact Or.inr ⟨e, _, rfl⟩
            | ok b =>
              by_cases hbne : b = []
              · subst hbne
                exact Or.inl ⟨some ip, _, rfl, .blind hip hne hb hf⟩
              · refine Or.inl ⟨some ip, _, ?_, .pinned hip hne hb hbne⟩
                simp only [exec_modify, if_neg hbne]
          · simp only [hbind]
            exact Or.inr ⟨_, _, rfl⟩
    · simp only [hu]
      exact Or.inr ⟨_, _, rfl⟩

/-- `_send_beacon` does nothing, loses its socket, or hands one datagram to each target of a socket that it had or has
built. -/
inductive Outcome (lan : SendLan) (port : Option Nat) (s : Sender) : Sender → Prop where
  | nothing : Outcome lan port s s
  | lost (ts : List (Str × Nat)) : Outcome lan port s { s with sendSock := none, sendTargets := ts }
  | sent (src : Option Str) (ts : List (Str × Nat)) (beacon : Bytes) (hdata : s.beaconFor port = .ok beacon)
      (haim : s.sendSock = some src ∧ s.sendTargets = ts ∨ Aim s.cfg lan src ts) :
      Outcome lan port s (hand lan beacon { s with sendSock := some src, sendTargets := ts })

theorem sendBeacon_outcome (lan : SendLan) (port : Option Nat) (s : Sender) :
    Outcome lan port s (exec (sendBeacon lan port) s).2 := by
  unfold sendBeacon
  simp only [exec_bind, exec_get]
  split
  · exact .nothing
  simp only [exec_bind, exec_lift]
  cases hdata : s.beaconFor port with
  | error e => exact .nothing
  | ok beacon =>
    simp only [exec_tryCatch]
    cases hsock : s.sendSock with
    | some src =>
      simp only [reduceCtorEq, if_false, exec_modify]
      have hsame : { s with sendSock := some src, sendTargets := s.sendTargets } = s := by
        rw [← hsock]
      have hsent : Outcome lan port s (hand lan beacon { s with sendSock := some src, sendTargets := s.sendTargets }) :=
        .sent src s.sendTargets beacon hdata (Or.inl ⟨hsock, rfl⟩)
      rw [hsame] at hsent
      exact hsent
    | none =>
      simp only [if_true, exec_bind]
      rcases buildSendSock_aims lan s with ⟨src, ts, hexec, haim⟩ | ⟨e, ts, hexec⟩
      · rw [hexec]
        exact .sent src ts beacon hdata (Or.inr haim)
      · rw [hexec]
        exact .lost ts

/-- What `_send_beacon` sends. -/
theorem sendBeacon_outbox (lan : SendLan) (port : Option Nat) (s : Sender) :
    (exec (sendBeacon lan port) s).2.outbox = s.outbox ∨ ∃ src ts beacon, s.beaconFor port = .ok beacon ∧
      (s.sendSock = some src ∧ s.sendTargets = ts ∨ Aim s.cfg lan src ts) ∧
      (exec (sendBeacon lan port) s).2.outbox =
        s.outbox ++ ts.zipIdx.map fun t => ⟨src, t.1, beacon, lan.sendto t.2⟩ := by
  have houtcome := sendBeacon_outcome lan port s
  generalize (exec (sendBeacon lan port) s).2 = s' at houtcome ⊢
  cases houtcome with
  | nothing => exact Or.inl rfl
  | lost ts => exact Or.inl rfl
  | sent src ts beacon hdata haim => exact Or.inr ⟨src, ts, beacon, hdata, haim, rfl⟩

/-! ## Runs -/

/-- The socket that is kept comes from one lookup of the run, and the message from `start` announces the inbox. -/
structure Kept (cfg : Config) (events : List Event) (s : Sender) : Prop where
  cfg_eq : s.cfg = cfg
  sock : ∀ src, s.sendSock = some src → ∃ lan port, .send lan port ∈ events ∧ Aim cfg lan src s.sendTargets
  msg : ∀ m, s.beaconMsg = some m → cfg.buildBeacon cfg.inboxPort = .ok m

section Runs

variable {cfg : Config} {events : List Event} {s : Sender}

/-- What `start` leaves behind. Only with UDP discovery is there a message. -/
theorem start_cases {gossip : Bool} (h : Sender.start cfg gossip = .ok s) : ∃ msg,
    s = { cfg, gossip, beaconSock := !gossip, beaconMsg := msg, sendSock := none, sendTargets := [], outbox := [] } ∧
    ∀ m, msg = some m → cfg.buildBeacon cfg.inboxPort = .ok m := by
  unfold Sender.start at h
  cases gossip with
  | true =>
    cases h
    refine ⟨none, rfl, ?_⟩
    rintro m ⟨⟩
  | false =>
    simp only [Bool.false_eq_true, if_false] at h
    cases hb : cfg.buildBeacon cfg.inboxPort with
    | error e =>
      rw [hb] at h
      cases h
    | ok b =>
      rw [hb] at h
      cases h
      refine ⟨some b, rfl, ?_⟩
      rintro m ⟨⟩
      rfl

theorem Kept.start {gossip : Bool} (h : Sender.start cfg gossip = .ok s) : Kept cfg [] s := by
  obtain ⟨msg, rfl, hmsg⟩ := start_cases h
  refine ⟨rfl, ?_, hmsg⟩
  rintro src ⟨⟩

/-- What a beacon tells. -/
theorem Kept.data (h : Kept cfg events s) {port : Option Nat} {beacon : Bytes} (hb : s.beaconFor port = .ok beacon) :
    cfg.buildBeacon (port.getD cfg.inboxPort) = .ok beacon := by
  unfold beaconFor at hb
  rw [h.cfg_eq] at hb
  cases port with
  | some port => exact hb
  | none =>
    cases hmsg : s.beaconMsg with
    | none => rwa [hmsg] at hb
    | some m =>
      rw [hmsg] at hb
      cases hb
      exact h.msg _ hmsg

/-- The lookup behind the datagrams of a call is that of an earlier call or its own. -/
theorem Kept.aims (h : Kept cfg events s) {lan : SendLan} {port : Option Nat} {src : Option Str}
    {ts : List (Str × Nat)} (haim : s.sendSock = some src ∧ s.sendTargets = ts ∨ Aim s.cfg lan src ts) :
    ∃ lan' port', .send lan' port' ∈ events ++ [.send lan port] ∧ Aim cfg lan' src ts := by
  rcases haim with ⟨hsock, rfl⟩ | haim
  · obtain ⟨lan', port', hmem, haim⟩ := h.sock src hsock
    exact ⟨lan', port', List.mem_append_left _ hmem, haim⟩
  · exact ⟨lan, port, by simp, h.cfg_eq ▸ haim⟩

theorem Kept.step (h : Kept cfg events s) (e : Event) : Kept cfg (events ++ [e]) (s.step e) := by
  cases e with
  | loopEnd => exact ⟨h.cfg_eq, by rintro src ⟨⟩, h.msg⟩
  | close => exact ⟨h.cfg_eq, by rintro src ⟨⟩, h.msg⟩
  | send lan port =>
    show Kept cfg _ (exec (sendBeacon lan port) s).2
    have houtcome := sendBeacon_outcome lan port s
    generalize (exec (sendBeacon lan port) s).2 = s' at houtcome ⊢
    cases houtcome with
    | nothing =>
      refine ⟨h.cfg_eq, fun src hsock => ?_, h.msg⟩
      exact h.aims (Or.inl ⟨hsock, rfl⟩)
    | lost ts => exact ⟨h.cfg_eq, by rintro src ⟨⟩, h.msg⟩
    | sent src ts beacon hdata haim =>
      refine ⟨h.cfg_eq, fun src' hsock => ?_, h.msg⟩
      cases hsock
      exact h.aims haim

theorem Run.kept (h : Run cfg events s) : Kept cfg events s := by
  induction h with
  | start h => exact Kept.start h
  | step _ e ih => exact ih.step e

/-- In every run, each `_send_beacon` sends nothing, or one datagram to every target that one lookup of the run, its
own or an earlier one, has given together with the address it sends from. The datagram announces the given port, or
the inbox. -/
theorem Run.bursts (h : Run cfg events s) (lan : SendLan) (port : Option Nat) :
    (s.step (.send lan port)).outbox = s.outbox ∨ ∃ lan' port' src ts data,
      .send lan' port' ∈ events ++ [.send lan port] ∧ Aim cfg lan' src ts ∧
      cfg.buildBeacon (port.getD cfg.inboxPort) = .ok data ∧ (s.step (.send lan port)).outbox =
        s.outbox ++ ts.zipIdx.map fun t => ⟨src, t.1, data, lan.sendto t.2⟩ := by
  rcases sendBeacon_outbox lan port s with hsame | ⟨src, ts, data, hdata, haim, houtbox⟩
  · exact Or.inl hsame
  · obtain ⟨lan', port', hmem, haim⟩ := h.kept.aims haim
    exact Or.inr ⟨lan', port', src, ts, data, hmem, haim, h.kept.data hdata, houtbox⟩

/-- Every datagram was sent from an address and to a target of one lookup. -/
theorem Run.lookups (h : Run cfg events s) : ∀ d ∈ s.outbox, ∃ lan port ts, .send lan port ∈ events ∧
    Aim cfg lan d.source ts ∧ d.target ∈ ts := by
  induction h with
  | start h =>
    obtain ⟨msg, rfl, -⟩ := start_cases h
    intro d hd
    cases hd
  | @step events s hrun e ih =>
    have hold : ∀ d ∈ s.outbox, ∃ lan port ts, .send lan port ∈ events ++ [e] ∧ Aim cfg lan d.source ts ∧
        d.target ∈ ts := by
      intro d hd
      obtain ⟨lan, port, ts, hmem, hrest⟩ := ih d hd
      exact ⟨lan, port, ts, List.mem_append_left _ hmem, hrest⟩
    cases e with
    | loopEnd => exact hold
    | close => exact hold
    | send lan port =>
      intro d hd
      replace hd : d ∈ (exec (sendBeacon lan port) s).2.outbox := hd
      rcases sendBeacon_outbox lan port s with hsame | ⟨src, ts, beacon, hdata, haim, houtbox⟩
      · rw [hsame] at hd
        exact hold d hd
      · rw [houtbox] at hd
        rcases List.mem_append.1 hd with hd | hd
        · exact hold d hd
        · obtain ⟨t, ht, rfl⟩ := List.mem_map.1 hd
          obtain ⟨lan', port', hmem, haim⟩ := hrun.kept.aims haim
          exact ⟨lan', port', ts, hmem, haim, List.fst_mem_of_mem_zipIdx ht⟩

/-- A pinned node whose interface can be looked up sends every beacon from an address of the interface, and to the
broadcast address of its subnet or to its own host. -/
theorem Run.stays_pinned (h : Run cfg events s) (hpins : ∀ lan port, .send lan port ∈ events →
      cfg.resolveInterfaceIp lan.toEnv ≠ .ok [] ∧ lan.interfaceBroadcast cfg.interface ≠ .ok []) :
    ∀ d ∈ s.outbox, ∃ lan port ip b, .send lan port ∈ events ∧ cfg.resolveInterfaceIp lan.toEnv = .ok ip ∧
      lan.interfaceBroadcast cfg.interface = .ok b ∧ d.source = some ip ∧
      (d.target = (b, cfg.beaconPort) ∨ d.target = (loopback, cfg.beaconPort)) := by
  intro d hd
  obtain ⟨lan, port, ts, hmem, haim, htarget⟩ := h.lookups d hd
  obtain ⟨hip, hb⟩ := hpins lan port hmem
  generalize d.source = source at haim ⊢
  cases haim with
  | free hfree => exact absurd hfree hip
  | blind _ _ hblind => exact absurd hblind hb
  | @pinned ip b hip _ hb _ =>
    refine ⟨lan, port, ip, b, hmem, hip, hb, rfl, ?_⟩
    rcases List.mem_cons.1 htarget with htarget | htarget
    · exact Or.inl htarget
    · exact Or.inr (List.mem_singleton.1 htarget)

end Runs

/-! ## A pinned node -/

/-- A node that is pinned to `eth0`. -/
def sampleCfg : Config :=
  { Config.plain (List.replicate 16 7) rfl ⟨[0x70], by decide⟩ 4001 with interface := some "eth0".toList }

/-- `eth0` is 192.168.1.5, and only the first of the targets can be sent to. -/
def sampleLan : SendLan where
  toLan := Lan.sample [Lan.sampleHead, Lan.sampleOnLink]
  bind _ := true
  sendto n := n == 0

def sampleStart : Sender :=
  { cfg := sampleCfg, gossip := false, beaconSock := true, beaconMsg := (sampleCfg.buildBeacon 4001).toOption,
    sendSock := none, sendTargets := [], outbox := [] }

/-- The sender after its first beacon. -/
def sampleSent : Sender := sampleStart.step (.send sampleLan none)

theorem sampleSent_run : Run sampleCfg [.send sampleLan none] sampleSent :=
  .step (@Run.start sampleCfg false sampleStart rfl) (.send sampleLan none)

theorem sampleSent_bursts : ∃ lan' port' src ts data,
    .send lan' port' ∈ [.send sampleLan none] ++ [Event.send sampleLan (some 0)] ∧ Aim sampleCfg lan' src ts ∧
    sampleCfg.buildBeacon 0 = .ok data ∧ (sampleSent.step (.send sampleLan (some 0))).outbox =
      sampleSent.outbox ++ ts.zipIdx.map fun t => ⟨src, t.1, data, sampleLan.sendto t.2⟩ := by
  rcases sampleSent_run.bursts sampleLan (some 0) with hsame | hsent
  · have hlen : sampleSent.outbox.length < (sampleSent.step (.send sampleLan (some 0))).outbox.length := by
      decide +kernel
    rw [hsame] at hlen
    omega
  · exact hsent

theorem sampleSent_stays_pinned :
    sampleSent.outbox.map (fun d => (d.source, d.target, d.sent)) =
      [(some "192.168.1.5".toList, ("192.168.1.255".toList, 5670), true),
        (some "192.168.1.5".toList, (loopback, 5670), false)] ∧
    ∃ d ∈ sampleSent.outbox, ∃ lan port ip b, .send lan port ∈ [Event.send sampleLan none] ∧
      sampleCfg.resolveInterfaceIp lan.toEnv = .ok ip ∧ lan.interfaceBroadcast sampleCfg.interface = .ok b ∧
      d.source = some ip ∧ (d.target = (b, 5670) ∨ d.target = (loopback, 5670)) := by
  have hpins : ∀ lan port, .send lan port ∈ [Event.send sampleLan none] →
      sampleCfg.resolveInterfaceIp lan.toEnv ≠ .ok [] ∧ lan.interfaceBroadcast sampleCfg.interface ≠ .ok [] := by
    intro lan port hmem
    cases List.mem_singleton.1 hmem
    decide +kernel
  have hne : sampleSent.outbox ≠ [] := by
    decide +kernel
  obtain ⟨d, hd⟩ := List.exists_mem_of_ne_nil _ hne
  exact ⟨by decide +kernel, d, hd, sampleSent_run.stays_pinned hpins d hd⟩

/-- A node that is pinned to `eth0` and does not find its netmask sends to everybody. -/
example : ("255.255.255.255".toList, 5670) ∈ (sampleStart.step
    (.send { sampleLan with interfaceNetmask := fun _ => none } none)).outbox.map Datagram.target := by
  decide +kernel

end Sender

end Zre
