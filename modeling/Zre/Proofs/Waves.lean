import Zre.Lib.Extinction
import Zre.Proofs.Candidates
import Mathlib.Data.List.Lex

/-!
# Proofs: the candidate that comes out

What a group's election holds after any number of ELECT frames: `_handle_elect` does to the books of an open
election what `Extinction` does to a ballot.
-/

namespace Zre

open Fallible

/-- The candidate of an election, from whom it was learned, and how many ELECTs were counted for it. -/
def Election.ballot (e : Election) : Extinction.Ballot Str Str := ⟨e.caw, e.father, e.erec⟩

namespace Node

/-- The ballot of a group's open election. -/
def ballot (n : Node) (g : Bytes) : Option (Extinction.Ballot Str Str) := (n.group g).election.map Election.ballot

section Ballots

variable {n n' : Node} {g : Bytes} {b : Extinction.Ballot Str Str}

theorem ballot_of_groups (h : n'.groups = n.groups) : n'.ballot g = n.ballot g := by
  unfold ballot Node.group
  rw [h]

theorem ballot_setElection (n : Node) (g : Bytes) (e : Election) :
    (n.setElection g (some e)).ballot g = some e.ballot := by
  unfold ballot setElection
  rw [group_setGroup]
  rfl

theorem ballot_requireGroup (n : Node) (g : Bytes) : (n.requireGroup g).ballot g = n.ballot g := by
  unfold ballot
  rw [(requireGroup_books n g g).1]

/-- The sending that follows a write leaves the written ballot alone. -/
theorem ballot_sent {e : Election} {x : Except PyError Node}
    (h : Ensures x fun m => m.groups = (n.setElection g (some e)).groups) :
    Ensures x fun m => m.ballot g = some e.ballot :=
  h.mono fun _ hm => (ballot_of_groups hm).trans (ballot_setElection n g e)

/-- The first half of `_handle_elect` yields to a lower challenger. -/
theorem ballot_adoptChallenger (env : Env) (r : Ref) (id : Str) (hb : n.ballot g = some b) :
    Ensures (n.adoptChallenger env r g id) fun m => m.ballot g = some (b.yield ((n.obj r).uuidHex, id)) := by
  obtain ⟨e, he, rfl⟩ := Option.map_eq_some_iff.1 hb
  unfold adoptChallenger
  simp only [he, Extinction.Ballot.yield]
  by_cases hlt : id < e.caw
  · rw [if_pos hlt, if_pos (show id < e.ballot.candidate from hlt)]
    exact ballot_sent (sendElections_groups env _ _ _ _ _)
  · rw [if_neg hlt, if_neg (show ¬ id < e.ballot.candidate from hlt)]
    exact Ensures.ok hb

/-- The second half counts an ELECT for the candidate. -/
theorem ballot_countChallenger (env : Env) (id : Str) (hb : n.ballot g = some b) :
    Ensures (n.countChallenger env g id) fun m => m.ballot g = some (b.tally id) := by
  obtain ⟨e, he, rfl⟩ := Option.map_eq_some_iff.1 hb
  unfold countChallenger
  simp only [he, Extinction.Ballot.tally]
  by_cases hc : id = e.caw
  · rw [if_neg (not_not.2 hc), if_pos (show id = e.ballot.candidate from hc)]
    have hset := ballot_setElection n g { e with erec := e.erec + 1 }
    split
    · exact Ensures.ok hset
    · split
      · exact ballot_sent (sendElections_groups env _ _ _ _ _)
      · split
        · exact Ensures.ok hset
        · split
          · exact Ensures.ok hset
          · exact ballot_sent (sendElection_groups env _ _ _ _ _)
  · rw [if_pos hc, if_neg (show ¬ id = e.ballot.candidate from hc)]
    exact Ensures.ok hb

/-- An ELECT is a voice of its sender. -/
theorem ballot_handleElect (env : Env) (r : Ref) (challenger : Bytes) (hb : n.ballot g = some b) :
    Ensures (n.handleElect env r g challenger) fun m =>
      m.ballot g = some (b.hear ((n.obj r).uuidHex, n.wireId (bdec challenger))) := by
  have htalk := talk_requireGroup True anything n g
  have hid : (n.requireGroup g).wireId (bdec challenger) = n.wireId (bdec challenger) := by
    unfold wireId
    rw [htalk.cfg]
  have hadopt := ballot_adoptChallenger env r (n.wireId (bdec challenger)) ((ballot_requireGroup n g).trans hb)
  rw [htalk.uuidHex] at hadopt
  unfold handleElect
  simp only [hid]
  exact hadopt.bind fun m hm => ballot_countChallenger env _ hm

end Ballots

/-- ELECT frames for the group `g` that are handled one after the other: their senders, and the ids that they
carry. Whatever happens between them leaves the ballot of the group as it is. -/
inductive Polls (g : Bytes) (n : Node) : List (Str × Bytes) → Node → Prop where
  | start : Polls g n [] n
  | elect {l : List (Str × Bytes)} {m m' : Node} (env : Env) (r : Ref) (challenger : Bytes) (h : Polls g n l m)
      (hs : m.handleElect env r g challenger = .ok m') : Polls g n (l ++ [((m.obj r).uuidHex, challenger)]) m'
  | other {l : List (Str × Bytes)} {m m' : Node} (h : Polls g n l m) (hcfg : m'.cfg = m.cfg)
      (hb : m'.ballot g = m.ballot g) : Polls g n l m'

/-- The voices that ELECT frames are, with the ids in upper case. -/
def voices (n : Node) (l : List (Str × Bytes)) : List (Str × Str) := l.map fun f => (f.1, n.wireId (bdec f.2))

section Polls

variable {n n' : Node} {g : Bytes} {l : List (Str × Bytes)}

theorem Polls.cfg (h : Polls g n l n') : n'.cfg = n.cfg := by
  induction h with
  | start => rfl
  | elect env r challenger _ hs ih => exact (talk_handleElect env _ r g challenger _ hs).cfg.trans ih
  | other _ hcfg _ ih => exact hcfg.trans ih

/-- The ballot hears what the frames say. -/
theorem Polls.ballot (h : Polls g n l n') {b : Extinction.Ballot Str Str} (hb : n.ballot g = some b) :
    n'.ballot g = some (b.hears (n.voices l)) := by
  induction h with
  | start => exact hb
  | @elect l m m' env r challenger h hs ih =>
    have hid : m.wireId (bdec challenger) = n.wireId (bdec challenger) := by
      unfold wireId
      rw [h.cfg]
    have hstep := ballot_handleElect env r challenger ih m' hs
    rw [hid, ← Extinction.Ballot.hears_concat] at hstep
    rw [hstep, Node.voices, Node.voices, List.map_append]
    rfl
  | other _ _ hkeep ih => exact hkeep.trans ih

/-- After any ELECT frames the candidate is the lowest of those heard of. As long as it stays, so does the
father, and the ELECTs for it are added up; otherwise the father is the first who sent it, and all ELECTs for it
are counted. The candidate does not depend on the order of the frames. -/
theorem Polls.extinction (h : Polls g n l n') {e : Election} (he : (n.group g).election = some e) :
    ∃ e', (n'.group g).election = some e' ∧
      (e'.caw ∈ e.caw :: (n.voices l).map Prod.snd ∧ ∀ c ∈ e.caw :: (n.voices l).map Prod.snd, e'.caw ≤ c) ∧
      (e'.caw = e.caw → e'.father = e.father ∧ e'.erec = e.erec + Extinction.voices e'.caw (n.voices l)) ∧
      (e'.caw ≠ e.caw → (∃ u, Extinction.first e'.caw (n.voices l) = some u ∧ e'.father = some u) ∧
        e'.erec = Extinction.voices e'.caw (n.voices l)) ∧
      ∀ l2 n2, l2.Perm l → Polls g n l2 n2 → ∃ e2, (n2.group g).election = some e2 ∧ e2.caw = e'.caw := by
  have hb : n.ballot g = some e.ballot := congrArg (Option.map Election.ballot) he
  obtain ⟨e', he', hballot⟩ := Option.map_eq_some_iff.1 (h.ballot hb)
  have hcaw : e'.caw = (e.ballot.hears (n.voices l)).candidate := congrArg Extinction.Ballot.candidate hballot
  have hfather : e'.father = (e.ballot.hears (n.voices l)).father := congrArg Extinction.Ballot.father hballot
  have herec : e'.erec = (e.ballot.hears (n.voices l)).count := congrArg Extinction.Ballot.count hballot
  refine ⟨e', he', ?_⟩
  rw [hcaw, hfather, herec]
  refine ⟨⟨e.ballot.hears_mem _, fun c hc => e.ballot.hears_le _ hc⟩, fun hsame => ?_, fun hne => ?_, ?_⟩
  · have hstays := e.ballot.hears_of_stays hsame
    rw [hsame]
    exact hstays
  · obtain ⟨hf, hcount⟩ := e.ballot.hears_of_changes hne
    have hmem := (List.mem_cons.1 (e.ballot.hears_mem (n.voices l))).resolve_left hne
    obtain ⟨v, hv, hvc⟩ := List.mem_map.1 hmem
    obtain ⟨u, hu⟩ := Extinction.first_of_mem hv hvc
    exact ⟨⟨u, hu, hf.trans hu⟩, hcount⟩
  · intro l2 n2 hperm h2
    obtain ⟨e2, he2, hballot2⟩ := Option.map_eq_some_iff.1 (h2.ballot hb)
    refine ⟨e2, he2, ?_⟩
    have hvoices : (n.voices l2).Perm (n.voices l) := hperm.map _
    rw [← e.ballot.hears_candidate_perm hvoices]
    exact congrArg Extinction.Ballot.candidate hballot2

/-- The id of the peer `00…01`. -/
def sampleLowest : Str := hex (List.replicate 15 0 ++ [1])

/-- The peer `00…01` stands for itself at a node that supports `00…02`. -/
theorem extinction_sampleWave :
    ∃ n', sampleWave.handleElect (Env.calm 0) 0 [0x67] (encodeStr sampleLowest) = .ok n' ∧
      ∃ e', (n'.group [0x67]).election = some e' ∧ e'.caw = sampleLowest ∧ e'.father = some sampleLowest ∧
        e'.erec = 1 := by
  cases hs : sampleWave.handleElect (Env.calm 0) 0 [0x67] (encodeStr sampleLowest) with
  | error x =>
    have hraised : raised (sampleWave.handleElect (Env.calm 0) 0 [0x67] (encodeStr sampleLowest)) = none := by
      decide +kernel
    rw [hs] at hraised
    cases hraised
  | ok n' =>
    have hopen : ((sampleWave.group [0x67]).election.map fun e => e.caw) = some (hex sampleUuid) := by
      decide +kernel
    obtain ⟨e, he, hcaw⟩ := Option.map_eq_some_iff.1 hopen
    have hvoices : sampleWave.voices [((sampleWave.obj 0).uuidHex, encodeStr sampleLowest)] =
        [(sampleLowest, sampleLowest)] := by decide +kernel
    obtain ⟨e', he', ⟨hmem, hle⟩, hstays, hchanges, -⟩ :=
      (Polls.elect (Env.calm 0) 0 (encodeStr sampleLowest) .start hs).extinction he
    rw [List.nil_append, hvoices, hcaw] at hmem hle
    rw [List.nil_append, hvoices, hcaw] at hchanges
    have hlow : sampleLowest < hex sampleUuid := by decide +kernel
    have hnew : e'.caw = sampleLowest := by
      rcases List.mem_cons.1 hmem with hold | hnew
      · have := hle sampleLowest (by simp)
        rw [hold] at this
        exact absurd hlow (not_lt.2 this)
      · exact List.mem_singleton.1 hnew
    rw [hnew] at hchanges
    obtain ⟨⟨u, hu, hfather⟩, herec⟩ := hchanges (ne_of_lt hlow)
    have hfirst : Extinction.first sampleLowest [(sampleLowest, sampleLowest)] = some sampleLowest := by
      decide +kernel
    rw [hfirst] at hu
    refine ⟨n', rfl, e', he', hnew, hfather.trans hu.symm, herec.trans ?_⟩
    decide +kernel

end Polls

end Node

end Zre
