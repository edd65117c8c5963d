import Mathlib.Data.List.Chain
import Zre.Loop
import Zre.Proofs.Alerts

/-!
# Proofs: the passes of the run loop

A pass is a sequence of calls of the handlers. So whatever holds of the states that a node can reach holds of every
state that its run loop can reach, and what a run does is told by the history of these calls.
-/

namespace Zre

open Fallible

namespace Node

/-- One call after the other. -/
def makes (n : Node) (calls : List (Env × Input)) : Except PyError Node :=
  calls.foldlM (fun n c => n.step c.1 c.2) n

/-- What happens at these calls, when none of them raises. -/
def moments (n : Node) : List (Env × Input) → List Moment
  | [] => []
  | c :: rest => ⟨c.1, c.2, n, n.after c.1 c.2⟩ :: (n.after c.1 c.2).moments rest

theorem after_eq {n n' : Node} {env : Env} {input : Input} (h : n.step env input = .ok n') :
    n.after env input = n' := by
  unfold after
  rw [h]

theorem makes_append (n : Node) (cs ds : List (Env × Input)) :
    n.makes (cs ++ ds) = (do (← n.makes cs).makes ds) := by
  unfold makes
  rw [List.foldlM_append]

theorem makes_singleton (n : Node) (env : Env) (input : Input) : n.makes [(env, input)] = n.step env input := by
  unfold makes
  rw [List.foldlM_cons]
  exact bind_pure _

theorem makes_append_ok {n n' : Node} {cs ds : List (Env × Input)} (h : n.makes (cs ++ ds) = .ok n') :
    ∃ m, n.makes cs = .ok m ∧ m.makes ds = .ok n' := by
  rw [makes_append] at h
  exact bind_eq_ok_iff.1 h

theorem moments_append {n m : Node} {cs : List (Env × Input)} (ds : List (Env × Input)) (h : n.makes cs = .ok m) :
    n.moments (cs ++ ds) = n.moments cs ++ m.moments ds := by
  induction cs generalizing n with
  | nil =>
    cases h
    rfl
  | cons c cs ih =>
    obtain ⟨n', hstep, hrest⟩ := bind_eq_ok_iff.1 h
    show _ :: (n.after c.1 c.2).moments (cs ++ ds) = _ :: ((n.after c.1 c.2).moments cs ++ _)
    rw [after_eq hstep, ih hrest]

/-- The calls lead to a state that the node can reach. -/
theorem Reachable.makes {n n' : Node} (hn : n.Reachable) {cs : List (Env × Input)} (h : n.makes cs = .ok n') :
    n'.Reachable ∧ n'.cfg = n.cfg := by
  induction cs generalizing n with
  | nil =>
    cases h
    exact ⟨hn, rfl⟩
  | cons c cs ih =>
    obtain ⟨m, hstep, hrest⟩ := bind_eq_ok_iff.1 h
    obtain ⟨hn', hcfg⟩ := ih (.step c.1 c.2 hn hstep) hrest
    exact ⟨hn', hcfg.trans (lines_step c.1 hn.tables c.2 m hstep).cfg⟩

end Node

namespace Loop

/-! ## The calls of a pass -/

/-- The calls that a ready socket leads to. -/
def received (now : Int) : Env × Ready → List (Env × Input)
  | (_, .inbox none) | (_, .beacon none) => []
  | (env, .inbox (some frames)) => [(env, .peerMsg frames)]
  | (env, .beacon (some (data, host))) => [(env, .beacon data host)]
  | (env, .hub tuples) => tuples.map fun t => ({ env with now := now }, .gossip t.1 t.2)
  | (_, .link tuples) => tuples.map fun t => (t.1, .gossip t.2.1 t.2.2)

/-- The calls of a pass before its reaper. -/
def handled (l : Loop) (p : Pass) : List (Env × Input) :=
  l.api.zipIdx.map (fun c => (p.command c.2, .command c.1)) ++ p.ready.flatMap (received p.now)

/-- The reaper of a pass, if it is due. -/
def reaped (l : Loop) (p : Pass) : List (Env × Input) :=
  if reapInterval ≤ p.now - l.lastReap then [({ p.reap with now := p.now }, .reap)] else []

theorem drain_eq (env : Nat → Env) (n : Node) (api : List Node.Command) :
    drain env n api = n.makes (api.zipIdx.map fun c => (env c.2, .command c.1)) := by
  unfold drain Node.makes
  rw [List.foldlM_map]
  rfl

theorem receive_eq (now : Int) (n : Node) (x : Env × Ready) : receive now n x = n.makes (received now x) := by
  obtain ⟨env, ready⟩ := x
  cases ready with
  | inbox frames =>
    cases frames with
    | none => rfl
    | some frames => exact (n.makes_singleton env (.peerMsg frames)).symm
  | beacon datagram =>
    cases datagram with
    | none => rfl
    | some d => exact (n.makes_singleton env (.beacon d.1 d.2)).symm
  | hub tuples =>
    unfold receive received Node.makes
    rw [List.foldlM_map]
    rfl
  | link tuples =>
    unfold receive received Node.makes
    rw [List.foldlM_map]
    rfl

theorem receives_eq (now : Int) (n : Node) (ready : List (Env × Ready)) :
    ready.foldlM (receive now) n = n.makes (ready.flatMap (received now)) := by
  induction ready generalizing n with
  | nil => rfl
  | cons x ready ih =>
    rw [List.foldlM_cons, List.flatMap_cons, Node.makes_append, receive_eq]
    exact congrArg _ (funext ih)

/-- What a pass does besides its calls. -/
structure Passed (l : Loop) (p : Pass) (l' : Loop) : Prop where
  node : l.node.makes (l.handled p ++ l.reaped p) = .ok l'.node
  interval : l'.interval = l.interval
  api : l'.api = []
  now : l'.now = p.now
  polled : l'.polled = p.polled
  lastReap : l'.lastReap = if reapInterval ≤ p.now - l.lastReap then p.now else l.lastReap
  beat : if l.interval ≤ p.now - l.lastBeacon then l'.lastBeacon = p.now ∧ l'.beacons = l.beacons ++ [p.sent]
    else l'.lastBeacon = l.lastBeacon ∧ l'.beacons = l.beacons

theorem beat_eq (sent : Int) (l : Loop) : ∃ t bs, l.beat sent = { l with lastBeacon := t, beacons := bs } ∧
    if l.interval ≤ l.now - l.lastBeacon then t = l.now ∧ bs = l.beacons ++ [sent]
    else t = l.lastBeacon ∧ bs = l.beacons := by
  unfold beat
  by_cases h : l.interval ≤ l.now - l.lastBeacon
  · rw [if_pos h]
    exact ⟨_, _, rfl, by rw [if_pos h]; exact ⟨rfl, rfl⟩⟩
  · rw [if_neg h]
    exact ⟨_, _, rfl, by rw [if_neg h]; exact ⟨rfl, rfl⟩⟩

theorem passed {l l' : Loop} {p : Pass} (h : l.pass p = .ok l') : Passed l p l' := by
  obtain ⟨n1, hdrain, h⟩ := bind_eq_ok_iff.1 h
  obtain ⟨t, bs, hbeat, hif⟩ := beat_eq p.sent { l with now := p.now, node := n1, api := [] }
  simp only [hbeat] at h
  obtain ⟨n2, hready, h⟩ := bind_eq_ok_iff.1 h
  rw [drain_eq] at hdrain
  rw [receives_eq] at hready
  have hhandled : l.node.makes (l.handled p) = .ok n2 := by
    unfold handled
    rw [Node.makes_append, hdrain]
    exact hready
  unfold reap at h
  by_cases hdue : reapInterval ≤ p.now - l.lastReap
  · rw [if_pos hdue] at h
    obtain ⟨n3, hreap, h⟩ := bind_eq_ok_iff.1 h
    cases h
    refine ⟨?_, rfl, rfl, rfl, rfl, by rw [if_pos hdue], hif⟩
    rw [Node.makes_append, hhandled, reaped, if_pos hdue]
    exact (Node.makes_singleton n2 _ _).trans hreap
  · rw [if_neg hdue] at h
    cases h
    refine ⟨?_, rfl, rfl, rfl, rfl, by rw [if_neg hdue], hif⟩
    rw [reaped, if_neg hdue, List.append_nil]
    exact hhandled

/-! ## Runs -/

/-- What happens to the node at an event; what the application does at once is left out. -/
def moments (l : Loop) : Event → List Node.Moment
  | .pass p => l.node.moments (l.handled p ++ l.reaped p)
  | _ => []

/-- The runs whose events satisfy `P`, with the history of the calls. The clock of an event loop does not show 0. -/
inductive Run (P : Loop → Event → Prop) : List Node.Moment → Loop → Prop where
  | start (cfg : Config) (interval now : Int) (hnow : 0 < now) (hinterval : 0 < interval) :
      Run P [] (Loop.start cfg interval now)
  | step {ms : List Node.Moment} {l l' : Loop} (event : Event) (h : Run P ms l) (hp : P l event)
      (hs : l.step event = .ok l') : Run P (ms ++ l.moments event) l'

/-- The clock does not go back. -/
def InOrder (l : Loop) (event : Event) : Prop :=
  ∀ p, event = .pass p → l.now ≤ p.now ∧ p.now ≤ p.polled ∧ ∀ c ∈ l.handled p, p.now ≤ c.1.now

/-- Apart from its wait, a pass takes `w` at most. -/
def Swift (w : Int) (l : Loop) (event : Event) : Prop := ∀ p, event = .pass p → p.now ≤ l.now + l.wait + w

/-- The commands of a pass take `d` at most. -/
def Prompt (d : Int) (_ : Loop) (event : Event) : Prop :=
  ∀ p, event = .pass p → p.now ≤ p.sent ∧ p.sent ≤ p.now + d

/-- An event that is no pass. -/
theorem step_rest {l l' : Loop} {event : Event} (h : l.step event = .ok l') :
    (∃ p, event = .pass p ∧ Passed l p l') ∨ l.moments event = [] ∧ ∃ n api, l' = { l with node := n, api := api } ∧
      (n = l.node ∨ ∃ env input, acts input = true ∧ l.node.step env input = .ok n) := by
  cases event with
  | pass p => exact Or.inl ⟨p, rfl, passed h⟩
  | put c =>
    cases h
    exact Or.inr ⟨rfl, _, _, rfl, Or.inl rfl⟩
  | act env input =>
    simp only [step] at h
    split at h
    · rename_i ha
      obtain ⟨n, hn, h⟩ := bind_eq_ok_iff.1 h
      cases h
      exact Or.inr ⟨rfl, _, _, rfl, Or.inr ⟨env, input, ha, hn⟩⟩
    · cases h
      exact Or.inr ⟨rfl, _, _, rfl, Or.inl rfl⟩

theorem step_reachable {l l' : Loop} (hn : l.node.Reachable) {event : Event} (h : l.step event = .ok l') :
    l'.node.Reachable ∧ l'.node.cfg = l.node.cfg := by
  rcases step_rest h with ⟨p, -, hpass⟩ | ⟨-, n, api, rfl, rfl | ⟨env, input, -, hstep⟩⟩
  · exact hn.makes hpass.node
  · exact ⟨hn, rfl⟩
  · exact ⟨.step env input hn hstep, (Node.lines_step env hn.tables input n hstep).cfg⟩

/-- Whatever holds in the states that a node can reach holds while its loop runs. -/
theorem Run.reachable {P : Loop → Event → Prop} {ms : List Node.Moment} {l : Loop} (h : Run P ms l) :
    l.node.Reachable := by
  induction h with
  | start cfg interval now hnow hinterval => exact .init cfg
  | step event _ _ hs ih => exact (step_reachable ih hs).1

/-- The reaper is late by less than an interval. -/
theorem Run.reaps {P : Loop → Event → Prop} (hP : ∀ l event, P l event → InOrder l event) {ms : List Node.Moment}
    {l : Loop} (h : Run P ms l) : l.lastReap ≤ l.now ∧ l.now - l.lastReap < reapInterval := by
  induction h with
  | start cfg interval now hnow hinterval =>
    refine ⟨le_rfl, ?_⟩
    show now - now < reapInterval
    rw [Int.sub_self]
    decide
  | step event _ hp hs ih =>
    obtain ⟨hle, hlt⟩ := ih
    rcases step_rest hs with ⟨p, rfl, hpass⟩ | ⟨-, n, api, rfl, -⟩
    · obtain ⟨hnow, -, -⟩ := hP _ _ hp p rfl
      rw [hpass.lastReap, hpass.now]
      have hpos : 0 < reapInterval := by decide
      split
      · exact ⟨le_rfl, by omega⟩
      · exact ⟨by omega, by omega⟩
    · exact ⟨hle, hlt⟩

/-! ## Beacons -/

/-- The wait does not go past the next beacon. -/
theorem wait_le {l : Loop} (hpolled : l.now ≤ l.polled) (hdue : l.now - l.lastBeacon < l.interval) :
    l.now + l.wait ≤ l.lastBeacon + l.interval := by
  unfold wait
  simp only []
  split
  · omega
  split
  · omega
  · omega

theorem wait_le_maxWait (l : Loop) : l.wait ≤ maxWait := by
  unfold wait
  simp only []
  split
  · decide
  split
  · exact le_rfl
  · omega

/-- The beacons so far come in time. The last one was sent at most `d` after the time that it is counted from. -/
structure Beating (w d : Int) (l : Loop) : Prop where
  apart : l.beacons.IsChain fun a b => l.interval - d ≤ b - a ∧ b - a ≤ l.interval + w + d
  positive : 0 < l.interval
  last : ∀ b, l.beacons.getLast? = some b →
    l.lastBeacon ≤ b ∧ b ≤ l.lastBeacon + d ∧ l.now - l.lastBeacon < l.interval ∧ l.now ≤ l.polled

theorem Beating.pass {w d : Int} {l l' : Loop} {p : Pass} (hb : Beating w d l) (horder : InOrder l (.pass p))
    (hswift : Swift w l (.pass p)) (hprompt : Prompt d l (.pass p)) (h : Passed l p l') : Beating w d l' := by
  obtain ⟨-, hpolled, -⟩ := horder p rfl
  obtain ⟨hafter, hsoon⟩ := hprompt p rfl
  have hbeat := h.beat
  by_cases hdue : l.interval ≤ p.now - l.lastBeacon
  · rw [if_pos hdue] at hbeat
    obtain ⟨hlast, hbeacons⟩ := hbeat
    refine ⟨?_, h.interval ▸ hb.positive, fun b hlastb => ?_⟩
    · rw [hbeacons, h.interval]
      refine List.isChain_append.2 ⟨hb.apart, List.isChain_singleton _, fun a ha b hbin => ?_⟩
      rw [List.head?_cons, Option.mem_some_iff] at hbin
      obtain ⟨hfrom, hto, hlt, hle⟩ := hb.last a ha
      have hnext := hswift p rfl
      have hwait := wait_le hle hlt
      subst hbin
      constructor
      · omega
      · omega
    · rw [hbeacons, List.getLast?_concat] at hlastb
      cases hlastb
      rw [hlast, h.now, h.interval, h.polled]
      have hpos := hb.positive
      exact ⟨hafter, hsoon, by omega, hpolled⟩
  · rw [if_neg hdue] at hbeat
    obtain ⟨hlast, hbeacons⟩ := hbeat
    refine ⟨by rw [hbeacons, h.interval]; exact hb.apart, h.interval ▸ hb.positive, fun b hlastb => ?_⟩
    rw [hbeacons] at hlastb
    obtain ⟨hfrom, hto, -, -⟩ := hb.last b hlastb
    rw [hlast, h.now, h.interval, h.polled]
    exact ⟨hfrom, hto, by omega, hpolled⟩

/-- In every run whose passes take `w` at most apart from their waits, of which `d` at most for the commands, two
beacons that follow each other are sent at least one interval less `d` and at most one interval, `w` and `d` apart. -/
theorem Run.beats {w d : Int} {ms : List Node.Moment} {l : Loop}
    (h : Run (fun l event => InOrder l event ∧ Swift w l event ∧ Prompt d l event) ms l) :
    l.beacons.IsChain fun a b => l.interval - d ≤ b - a ∧ b - a ≤ l.interval + w + d := by
  suffices hb : Beating w d l from hb.apart
  induction h with
  | start cfg interval now hnow hinterval =>
    refine ⟨List.IsChain.nil, hinterval, fun b hb => ?_⟩
    cases hb
  | step event _ hp hs ih =>
    rcases step_rest hs with ⟨p, rfl, hpass⟩ | ⟨-, n, api, rfl, -⟩
    · exact ih.pass hp.1 hp.2.1 hp.2.2 hpass
    · exact ⟨ih.apart, ih.positive, ih.last⟩

/-! ## A sample -/

/-- A pass at `now` whose commands take 100 ms and that brings `ready`. -/
def samplePass (now : Int) (ready : List Ready) : Pass where
  now
  command _ := Env.calm now
  sent := now + 100000000
  polled := now + 100000000
  ready := ready.map fun x => (Env.calm now, x)
  reap := Env.calm now

/-- The beacon of a peer. -/
def sampleHail : Ready := .beacon (some (Node.sampleBeaconData 4002, "10.0.0.2".toList))

/-- The passes at 1, 8 and 10 seconds, the last one first; the first and the last bring the beacon of a peer. -/
def samplePasses : List Pass :=
  [samplePass 10000000000 [sampleHail], samplePass 8000000000 [], samplePass 1000000000 [sampleHail]]

/-- The history and the loop after some passes, the last one first; a pass that raises is not followed. -/
def sampleLoop : List Pass → List Node.Moment × Loop
  | [] => ([], start Node.sampleA.cfg 1000000000 1000000000)
  | p :: ps => ((sampleLoop ps).1 ++ (sampleLoop ps).2.moments (.pass p),
      ((sampleLoop ps).2.pass p).toOption.getD (sampleLoop ps).2)

/-- Three passes with up to 10 seconds between them. -/
theorem sample_run {P : Loop → Event → Prop}
    (hP : ∀ l event, InOrder l event ∧ Swift 10000000000 l event ∧ Prompt 100000000 l event → P l event) :
    Run P (sampleLoop samplePasses).1 (sampleLoop samplePasses).2 := by
  have hpass : ∀ (p : Pass) (ps : List Pass), Run P (sampleLoop ps).1 (sampleLoop ps).2 →
      ((sampleLoop ps).2.now ≤ p.now ∧ p.now ≤ p.polled ∧ ∀ c ∈ (sampleLoop ps).2.handled p, p.now ≤ c.1.now) →
      p.now ≤ (sampleLoop ps).2.now + (sampleLoop ps).2.wait + 10000000000 →
      (p.now ≤ p.sent ∧ p.sent ≤ p.now + 100000000) → ((sampleLoop ps).2.pass p).toOption.isSome = true →
      Run P (sampleLoop (p :: ps)).1 (sampleLoop (p :: ps)).2 := by
    intro p ps hrun horder hswift hprompt hok
    refine .step (.pass p) hrun (hP _ _ ⟨?_, ?_, ?_⟩) (eq_ok_getD hok)
    · rintro _ ⟨⟩
      exact horder
    · rintro _ ⟨⟩
      exact hswift
    · rintro _ ⟨⟩
      exact hprompt
  have h0 : Run P (sampleLoop []).1 (sampleLoop []).2 := .start _ _ _ (by decide) (by decide)
  have h1 := hpass (samplePass 1000000000 [sampleHail]) _ h0 (by decide +kernel) (by decide +kernel)
    (by decide +kernel) (by decide +kernel)
  have h2 := hpass (samplePass 8000000000 []) _ h1 (by decide +kernel) (by decide +kernel)
    (by decide +kernel) (by decide +kernel)
  exact hpass (samplePass 10000000000 [sampleHail]) _ h2 (by decide +kernel) (by decide +kernel)
    (by decide +kernel) (by decide +kernel)

/-- Three beacons go out. -/
theorem sample_beats : (sampleLoop samplePasses).2.beacons = [1100000000, 8100000000, 10100000000] ∧
    (sampleLoop samplePasses).2.beacons.IsChain fun a b =>
      (sampleLoop samplePasses).2.interval - 100000000 ≤ b - a ∧
        b - a ≤ (sampleLoop samplePasses).2.interval + 10000000000 + 100000000 := by
  have hrun : Run (fun l event => InOrder l event ∧ Swift 10000000000 l event ∧ Prompt 100000000 l event)
      (sampleLoop samplePasses).1 (sampleLoop samplePasses).2 := sample_run fun _ _ h => h
  exact ⟨by decide +kernel, hrun.beats⟩

end Loop

end Zre
