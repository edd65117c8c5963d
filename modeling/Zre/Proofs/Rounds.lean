import Zre.Proofs.HandlerMoves

/-!
# Proofs: runs in smaller steps

A pass of the reaper drops stale dials, looks after the elections, and then takes one round for each
peer. What may go wrong in one of these acts depends on the state right before it, so the runs are taken
apart here: every reachable state is visited by a run of acts.
-/

namespace Zre

open Fallible

/-- A smaller step of the run loop. -/
inductive Act where
  /-- Any event but a pass of the reaper. -/
  | input (input : Input)
  /-- The pending dials are looked through. -/
  | dropDials
  | maintain
  /-- The round of one peer. -/
  | round (r : Ref)

namespace Node

/-- The datagram passes the format checks of `n`, and these are its fields. -/
def Hears (n : Node) (data uuid : Bytes) (port : Nat) : Prop :=
  n.running = true ∧ data.take 3 = beaconMagic ∧ byteAt data 3 = .ok n.cfg.beaconVersion ∧
    beaconSize n.cfg.beaconVersion = some data.length ∧ uuid = slice data 4 20 ∧
    unpackH (slice data 20 22) = .ok port

/-- The key that a datagram of the node's own version carries. -/
def beaconKey (n : Node) (data : Bytes) : Option Bytes :=
  if n.cfg.beaconVersion = beaconVersionV3 then some (slice data 22 54) else none

/-- A datagram is ignored, or passes the format checks and is accepted. -/
theorem handleBeacon_cases (env : Env) (n : Node) (data : Bytes) (host : Str) :
    Ensures (n.handleBeacon env data host) fun n' => n' = n ∨ ∃ uuid port,
      n.Hears data uuid port ∧ n.acceptBeacon env uuid port (n.beaconKey data) host = .ok n' := by
  intro n' hn
  unfold handleBeacon at hn
  split at hn
  · cases hn
    exact Or.inl rfl
  rename_i hrun
  split at hn
  · cases hn
    exact Or.inl rfl
  rename_i hmagic
  obtain ⟨version, hver, hn⟩ := bind_eq_ok_iff.1 hn
  split at hn
  · cases hn
    exact Or.inl rfl
  rename_i hsize
  split at hn
  · cases hn
    exact Or.inl rfl
  rename_i hmode
  obtain ⟨port, hport, hn⟩ := bind_eq_ok_iff.1 hn
  have hmode' : version = n.cfg.beaconVersion := not_not.1 hmode
  subst hmode'
  exact Or.inr ⟨_, port,
    ⟨by simpa using hrun, not_not.1 hmagic, hver, not_not.1 hsize, rfl, hport⟩, hn⟩

/-- A datagram that passes the format checks is accepted. -/
theorem handleBeacon_heard (env : Env) {n : Node} {data uuid : Bytes} {port : Nat}
    (h : n.Hears data uuid port) (host : Str) :
    n.handleBeacon env data host = n.acceptBeacon env uuid port (n.beaconKey data) host := by
  obtain ⟨hrun, hmagic, hver, hsize, rfl, hport⟩ := h
  unfold handleBeacon beaconKey
  simp [hrun, hmagic, hver, hsize, hport]

/-- The act tells that the node `k` listens at `host` and `port`. -/
inductive Announces (n : Node) : Act → Str → Str → Int → Prop where
  | hello {frames : List Bytes} {uuid : Bytes} {msg : Msg} {extra : List Bytes} {h : HelloFields} {addr : Str}
      {port : Int} (hc : Carries frames uuid msg extra) (hf : msg.fields = .hello h)
      (hs : splitEndpoint n.cfg.rt (endpointText h.endpoint) = .ok (addr, port)) :
      Announces n (.input (.peerMsg frames)) (hex uuid) (dialHost addr) port
  | beacon {data uuid : Bytes} {host : Str} {port : Nat} (hh : n.Hears data uuid port) (hp : port ≠ 0) :
      Announces n (.input (.beacon data host)) (hex uuid) host port
  | gossip {uuidHex endpoint addr : Str} {port : Int}
      (hs : splitEndpoint n.cfg.rt (partition '|' endpoint).1 = .ok (addr, port)) :
      Announces n (.input (.gossip uuidHex endpoint)) (n.cfg.rt.lower uuidHex) addr port

/-- The first part of `_reap`. -/
def dropDials (env : Env) (n : Node) : Node :=
  n.pending.entries.foldl (fun n e => n.reapPending env e) n

/-- One act. -/
def act (env : Env) (n : Node) : Act → Except PyError Node
  | .input input => n.step env input
  | .dropDials => .ok (n.dropDials env)
  | .maintain => n.maintainElections env
  | .round r => n.reapPeer env r

theorem act_after {n : Node} {env : Env} (input : Input) (h : raised (n.step env input) = none) :
    n.act env (.input input) = .ok (n.after env input) := step_after input h

/-- The act can happen: the reaper comes in its parts, and only looks at peers in the table. -/
def Enabled (n : Node) : Act → Prop
  | .input input => input ≠ .reap
  | .round r => r ∈ n.peers.values
  | _ => True

/-- The states that runs visit when each of their acts satisfies `P`. -/
inductive Visits (P : Node → Env → Act → Prop) : Node → Prop where
  | init (cfg : Config) : Visits P (Node.init cfg)
  | act {n n' : Node} (env : Env) (a : Act) (hn : Visits P n) (ha : n.Enabled a) (hp : P n env a)
      (h : n.act env a = .ok n') : Visits P n'

theorem moves_act (env : Env) {n : Node} (ht : Tables n) {a : Act} (ha : n.Enabled a) :
    Ensures (n.act env a) (Moves anything anything n) := by
  cases a with
  | input input => exact moves_step env ht input
  | dropDials =>
    refine Ensures.ok (moves_reapPendings env n n.pending.nodup fun e he => ?_).anything
    exact (Dict.get_eq_some_iff _).2 he
  | maintain => exact (talk_maintainElections env n).mono fun m h =>
    (Talk.moves h : Moves (may env []) _ n m).anything
  | round r =>
    obtain ⟨k, hk⟩ := (Dict.mem_values _).1 ha
    exact (moves_reapPeer env ht hk).mono fun _ h => h.1.anything

theorem Visits.tables {P : Node → Env → Act → Prop} {n : Node} (h : Visits P n) : Tables n := by
  induction h with
  | init cfg => exact Tables.init cfg
  | act env a _ ha _ h ih => exact (moves_act env ih ha _ h).invariant Tables.move ih

/-- An input whose handler does not raise leads to another visited state. -/
theorem Visits.input {P : Node → Env → Act → Prop} {n : Node} (hn : Visits P n) (env : Env)
    (input : Input) (hi : input ≠ .reap) (hp : P n env (.input input))
    (h : raised (n.step env input) = none) : Visits P (n.after env input) :=
  hn.act env (.input input) hi hp (act_after input h)

/-- What every act preserves holds in every state that is visited. -/
theorem Visits.invariant {P : Node → Env → Act → Prop} {I : Node → Prop}
    (hinit : ∀ cfg, I (Node.init cfg))
    (hact : ∀ n env a n', Tables n → I n → n.Enabled a → P n env a → n.act env a = .ok n' → I n')
    {n : Node} (h : Visits P n) : I n := by
  induction h with
  | init cfg => exact hinit cfg
  | act env a hn ha hp h ih => exact hact _ env a _ hn.tables ih ha hp h

/-- The runs whose acts satisfy `P`, each with the states before and after its acts. -/
inductive Chronicle (P : Node → Env → Act → Prop) : List (Node × Node) → Node → Prop where
  | init (cfg : Config) : Chronicle P [] (Node.init cfg)
  | act {l : List (Node × Node)} {n n' : Node} (env : Env) (a : Act) (hn : Chronicle P l n)
      (ha : n.Enabled a) (hp : P n env a) (h : n.act env a = .ok n') : Chronicle P (l ++ [(n, n')]) n'

theorem Chronicle.visits {P : Node → Env → Act → Prop} {l : List (Node × Node)} {n : Node}
    (h : Chronicle P l n) : Visits P n := by
  induction h with
  | init cfg => exact .init cfg
  | act env a _ ha hp h ih => exact .act env a ih ha hp h

/-- An input whose handler does not raise continues a run. -/
theorem Chronicle.input {P : Node → Env → Act → Prop} {l : List (Node × Node)} {n : Node}
    (hn : Chronicle P l n) (env : Env) (input : Input) (hi : input ≠ .reap)
    (hp : P n env (.input input)) (h : raised (n.step env input) = none) :
    Chronicle P (l ++ [(n, n.after env input)]) (n.after env input) :=
  hn.act env (.input input) hi hp (act_after input h)

/-- What holds of every act from a visited state holds of every step of a run. -/
theorem Chronicle.steps {P : Node → Env → Act → Prop} {R : Node → Node → Prop}
    (hact : ∀ n env a n', Visits P n → n.Enabled a → P n env a → n.act env a = .ok n' → R n n')
    {l : List (Node × Node)} {n : Node} (h : Chronicle P l n) : ∀ m m', (m, m') ∈ l → R m m' := by
  induction h with
  | init cfg => simp
  | act env a hn ha hp h ih =>
    intro m m' hm
    rcases List.mem_append.1 hm with hm | hm
    · exact ih m m' hm
    · cases List.mem_singleton.1 hm
      exact hact _ env a _ hn.visits ha hp h

/-- Every reachable state is visited. -/
theorem Reachable.visits {n : Node} (h : n.Reachable) : Visits (fun _ _ _ => True) n := by
  induction h with
  | init cfg => exact .init cfg
  | @step n n' env input hn hstep ih =>
    by_cases hreap : input = .reap
    · subst hreap
      have hrun : n.reap env = .ok n' := hstep
      obtain ⟨m, hm, hrun⟩ := bind_eq_ok_iff.1 hrun
      have hv1 : Visits (fun _ _ _ => True) (n.dropDials env) :=
        .act env .dropDials ih trivial trivial rfl
      have hv2 : Visits (fun _ _ _ => True) m := .act env .maintain hv1 trivial trivial hm
      have hrounds := reapPeers_rel env
        (R := fun a b => Visits (fun _ _ _ => True) a → Visits (fun _ _ _ => True) b) (fun _ => id)
        (fun h1 h2 h => h2 (h1 h)) (fun _ hk b hb ha => ?_) hv2.tables hv2.tables.peers_nodup
        fun r => (Dict.mem_values _).1
      · exact hrounds n' hrun hv2
      · exact ha.act env (.round _) ((Dict.mem_values _).2 ⟨_, hk⟩) trivial hb
    · exact .act env (.input input) ih hreap trivial hstep

end Node

end Zre
