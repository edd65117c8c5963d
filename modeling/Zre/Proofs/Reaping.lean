import Zre.Registry
import Zre.Proofs.Hub

/-!
# Proofs: lazy reaping

The hub looks for expired tuples at the start of a drain only, and the reference loses a tuple as soon as it
runs out. What is live in the table of the hub is the table of the reference, and the two answer alike unless
somebody looks at a tuple that has run out and was not reaped.
-/

namespace Zre

open Fallible

namespace Hub

variable {env : Env} {h h' : Hub}

/-! ## The live part of the table -/

/-- An expiry of the hub as a deadline. -/
def deadlineOf (expiry : Int) : WithTop Int := if expiry = 0 then ⊤ else expiry

/-- The table of the hub as a table with deadlines. -/
def lasting (h : Hub) : Expiring Bytes Bytes Int :=
  fun key => (h.tuples.get key).map fun e => (e.1, deadlineOf e.2)

/-- On a clock that started at 0, no tuple expires at 0. -/
theorem deadlineOf_expiry {now : Int} (hnow : 0 ≤ now) (ttl : Nat) :
    deadlineOf (expiry now ttl) = Registry.deadline now ttl := by
  unfold deadlineOf expiry Registry.deadline msec
  by_cases ht : 0 < ttl
  · have hne : ¬ now + (ttl : Int) * 1000000 = 0 := by omega
    rw [if_pos ht, if_pos ht, if_neg hne]
  · rw [if_neg ht, if_neg ht, if_pos rfl]

theorem lasts_deadline (now : Int) (ttl : Nat) : Expiring.Lasts now (Registry.deadline now ttl) := by
  unfold Registry.deadline msec
  split
  · exact Expiring.lasts_coe.2 (by omega)
  · exact Expiring.lasts_top now

/-- A tuple has run out when its deadline has passed. -/
theorem expired_iff (now : Int) (e : Bytes × Bytes × Int) :
    expired now e = true ↔ ¬ Expiring.Lasts now (deadlineOf e.2.2) := by
  unfold expired deadlineOf
  by_cases he : e.2.2 = 0
  · simp [he]
  · simp [he]

theorem lasting_eq_some_iff (h : Hub) {key value : Bytes} {deadline : WithTop Int} :
    h.lasting key = some (value, deadline) ↔
      ∃ expiry, h.tuples.get key = some (value, expiry) ∧ deadlineOf expiry = deadline := by
  simp only [lasting, Option.map_eq_some_iff, Prod.exists, Prod.mk.injEq]
  constructor
  · rintro ⟨v, expiry, hget, rfl, hd⟩
    exact ⟨expiry, hget, hd⟩
  · rintro ⟨expiry, hget, hd⟩
    exact ⟨value, expiry, hget, rfl, hd⟩

theorem lasting_set (h : Hub) (key value : Bytes) (expiry : Int) (pending : List (Bytes × Bytes))
    (outbox : List (Bytes × Bytes)) :
    ({ h with tuples := h.tuples.set key (value, expiry), pending := pending, outbox := outbox } : Hub).lasting =
      h.lasting.store key value (deadlineOf expiry) := by
  funext k
  simp only [lasting, Expiring.store, Dict.get_set, eq_comm (a := key)]
  split <;> rfl

theorem lasting_unpublish (h : Hub) (key : Bytes) : (h.unpublish key).lasting = h.lasting.remove key := by
  funext k
  simp only [lasting, unpublish, Expiring.remove, Dict.get_pop, eq_comm (a := key)]
  split <;> rfl

/-- Reaping leaves what is live. -/
theorem lasting_reap (env : Env) (h : Hub) : (h.reap env).lasting = h.lasting.live env.now := by
  funext k
  refine Option.ext fun ⟨value, deadline⟩ => ?_
  have hmem : k ∈ (h.tuples.entries.filter (expired env.now)).map Prod.fst ↔
      ∃ e, h.tuples.get k = some e ∧ expired env.now (k, e) = true := by
    simp only [List.mem_map, List.mem_filter, Prod.exists, exists_and_right, exists_eq_right,
      ← h.tuples.get_eq_some_iff]
  rw [Expiring.live_eq_some_iff, lasting_eq_some_iff, lasting_eq_some_iff]
  simp only [reap, Dict.get_foldl_pop, hmem]
  constructor
  · rintro ⟨expiry, hget, rfl⟩
    split at hget
    · cases hget
    · rename_i hlive
      refine ⟨⟨expiry, hget, rfl⟩, ?_⟩
      by_contra hlast
      exact hlive ⟨_, hget, (expired_iff env.now (k, value, expiry)).2 hlast⟩
  · rintro ⟨⟨expiry, hget, rfl⟩, hlast⟩
    refine ⟨expiry, ?_, rfl⟩
    rw [if_neg, hget]
    rintro ⟨e, he, hexp⟩
    obtain rfl : (value, expiry) = e := Option.some.inj (hget.symm.trans he)
    exact (expired_iff env.now (k, value, expiry)).1 hexp hlast

/-- The listing of the hub is one of its table. -/
theorem lists_listing (h : Hub) : h.lasting.Lists h.listing := by
  constructor
  · rw [listing, List.map_map]
    exact h.tuples.nodup
  · intro key value
    simp only [listing, List.mem_map, Prod.exists, Prod.mk.injEq, Expiring.Holds, lasting_eq_some_iff]
    constructor
    · rintro ⟨k, v, expiry, hmem, rfl, rfl⟩
      exact ⟨_, expiry, h.tuples.get_eq_some_iff.2 hmem, rfl⟩
    · rintro ⟨-, expiry, hget, -⟩
      exact ⟨key, value, expiry, h.tuples.get_eq_some_iff.1 hget, rfl, rfl⟩

/-- No tuple in the table has run out. -/
def Reaped (now : Int) (h : Hub) : Prop := ∀ e ∈ h.tuples.entries, expired now e = false

theorem reaped_iff (now : Int) (h : Hub) : Reaped now h ↔ h.lasting.live now = h.lasting := by
  constructor
  · intro hr
    funext k
    refine Option.ext fun ⟨value, deadline⟩ => ?_
    rw [Expiring.live_eq_some_iff, and_iff_left_iff_imp, lasting_eq_some_iff]
    rintro ⟨expiry, hget, rfl⟩
    by_contra hlast
    have hexp := (expired_iff now (k, value, expiry)).2 hlast
    rw [hr _ (h.tuples.get_eq_some_iff.1 hget)] at hexp
    cases hexp
  · rintro hlive ⟨key, value, expiry⟩ he
    have hkey : h.lasting key = some (value, deadlineOf expiry) :=
      (lasting_eq_some_iff h).2 ⟨expiry, h.tuples.get_eq_some_iff.2 he, rfl⟩
    rw [← hlive, Expiring.live_eq_some_iff] at hkey
    rw [Bool.eq_false_iff]
    exact fun hexp => (expired_iff now (key, value, expiry)).1 hexp hkey.2

theorem reaped_reap (env : Env) (h : Hub) : Reaped env.now (h.reap env) := by
  rw [reaped_iff, lasting_reap, Expiring.live_live _ le_rfl]

/-! ## Following the hub -/

/-- The reference knows what is live in the table of the hub, and agrees with the hub otherwise. -/
structure Follows (now : Int) (h : Hub) (r : Registry) : Prop where
  tuples : h.lasting.live now = r.tuples
  pending : h.pending = r.pending
  clients : h.clients = r.clients
  outbox : h.outbox = r.outbox

/-- The copy of the tuple that the hub has stored, if any, has not run out. -/
def NotStale (now : Int) (h : Hub) (key value : Bytes) : Prop :=
  ∀ expiry, h.tuples.get key = some (value, expiry) → expired now (key, value, expiry) = false

theorem Reaped.notStale {now : Int} (hr : Reaped now h) (key value : Bytes) : NotStale now h key value :=
  fun _ hget => hr _ (h.tuples.get_eq_some_iff.1 hget)

variable {r : Registry} {now : Int}

theorem init_follows : Follows 0 Hub.init Registry.init := by
  refine ⟨?_, rfl, rfl, rfl⟩
  funext k
  rfl

/-- The reference forgets as time goes by, and the hub need not. -/
theorem Follows.upTo {clock : Int} (hf : Follows clock h r) (hclock : clock ≤ now) :
    Follows now h (r.upTo now) := by
  refine ⟨?_, hf.pending, hf.clients, hf.outbox⟩
  rw [Registry.upTo, ← hf.tuples, Expiring.live_live _ hclock]

theorem Follows.reap (hf : Follows env.now h r) : Follows env.now (h.reap env) r := by
  refine ⟨?_, hf.pending, hf.clients, hf.outbox⟩
  rw [lasting_reap, Expiring.live_live _ le_rfl]
  exact hf.tuples

theorem Follows.addClient (hf : Follows now h r) (id : Bytes) : Follows now (h.addClient id) (r.meets id) := by
  refine ⟨hf.tuples, hf.pending, ?_, hf.outbox⟩
  simp only [Hub.addClient, Registry.meets, hf.clients]

/-- The hub takes a tuple for a duplicate exactly when it is live, unless its copy has run out. -/
theorem Follows.duplicate_iff (hf : Follows now h r) {key value : Bytes} (hs : NotStale now h key value) :
    (h.tuples.get key).map Prod.fst = some value ↔ r.tuples.Holds key value := by
  unfold Expiring.Holds
  rw [← hf.tuples]
  simp only [Expiring.live_eq_some_iff, lasting_eq_some_iff, Option.map_eq_some_iff, Prod.exists]
  constructor
  · rintro ⟨v, expiry, hget, rfl⟩
    refine ⟨deadlineOf expiry, ⟨expiry, hget, rfl⟩, ?_⟩
    by_contra hlast
    have hexp := (expired_iff now (key, v, expiry)).2 hlast
    rw [hs expiry hget] at hexp
    cases hexp
  · rintro ⟨-, ⟨expiry, hget, -⟩, -⟩
    exact ⟨value, expiry, hget, rfl⟩

/-- A loop that sends one message after the other appends their frames. -/
theorem frames_of_foldlM {α : Type} (mail : α → Bytes × Zgs.Message) (xs : List α)
    (hr : xs.foldlM (fun h x => do return h.send (mail x).1 (← Zgs.encode (mail x).2)) h = .ok h') :
    ∃ frames, (xs.map mail).Forall₂ Registry.Framed frames ∧ h' = { h with outbox := h.outbox ++ frames } := by
  induction xs generalizing h with
  | nil =>
    cases hr
    exact ⟨[], .nil, by simp⟩
  | cons x xs ih =>
    rw [List.foldlM_cons] at hr
    obtain ⟨h1, hh1, hr⟩ := bind_eq_ok_iff.1 hr
    obtain ⟨body, hbody, hh1⟩ := bind_eq_ok_iff.1 hh1
    cases hh1
    obtain ⟨frames, hframes, rfl⟩ := ih hr
    refine ⟨((mail x).1, body) :: frames, .cons ⟨rfl, hbody⟩ hframes, ?_⟩
    simp [send]

/-- What the hub posts, the reference posts. -/
theorem Follows.posts (hf : Follows now h r) {mails : List (Bytes × Zgs.Message)}
    {frames : List (Bytes × Bytes)} (hframes : mails.Forall₂ Registry.Framed frames) :
    ∃ r', r.Posts mails r' ∧ Follows now { h with outbox := h.outbox ++ frames } r' := by
  refine ⟨_, ⟨frames, hframes, rfl⟩, hf.tuples, hf.pending, hf.clients, ?_⟩
  rw [hf.outbox]

/-- The reference takes in what the hub takes in. -/
theorem Follows.accept (hf : Follows env.now h r) (hnow : 0 ≤ env.now) {key value : Bytes} {ttl : Nat}
    (hs : NotStale env.now h key value) (ha : h.accept env key value ttl = .ok h') :
    ∃ r', r.Accepts env key value ttl r' ∧ Follows env.now h' r' ∧
      (Reaped env.now h → Reaped env.now h') := by
  have hdup := hf.duplicate_iff hs
  unfold Hub.accept at ha
  split at ha
  · rename_i hold
    cases ha
    exact ⟨r, .known (hdup.1 hold), hf, id⟩
  rename_i hnew
  obtain ⟨frames, hframes, rfl⟩ := frames_of_foldlM (fun id => (id, Zgs.Message.publish key value ttl)) _ ha
  have hstore := lasting_set h key value (expiry env.now ttl) (h.pending ++ [(key, value)]) (h.outbox ++ frames)
  rw [deadlineOf_expiry hnow] at hstore
  have hlive := Expiring.live_store h.lasting key value (lasts_deadline env.now ttl)
  refine ⟨_, .news (fun hold => hnew (hdup.2 hold)) ⟨frames, ?_, rfl⟩, ⟨?_, ?_, hf.clients, ?_⟩, ?_⟩
  · rw [← hf.clients]
    exact hframes
  · rw [hstore, hlive, hf.tuples]
  · simp only [hf.pending]
  · simp only [hf.outbox]
  · intro hr
    rw [reaped_iff, hstore, hlive, (reaped_iff _ _).1 hr]

/-- While nothing in the table has run out, the reference handles what the hub handles. -/
theorem Follows.message (hf : Follows env.now h r) (hr : Reaped env.now h) (hnow : 0 ≤ env.now)
    {frames : List Bytes} (hm : h.handleMessage env frames = .ok h') :
    ∃ r', r.Handles env frames r' ∧ Follows env.now h' r' ∧ Reaped env.now h' := by
  unfold handleMessage at hm
  split at hm
  swap
  · rename_i hlen
    cases hm
    refine ⟨r, .noise fun hl => ?_, hf, hr⟩
    obtain ⟨id, body, rfl⟩ := List.length_eq_two.1 hl
    exact hlen id body rfl
  rename_i id body
  obtain ⟨m, hdec, hm⟩ := bind_eq_ok_iff.1 hm
  have hf' := hf.addClient id
  have hr' : Reaped env.now (h.addClient id) := hr
  cases m with
  | none =>
    cases hm
    exact ⟨_, .quiet (Or.inl hdec), hf', hr'⟩
  | some m =>
    cases m with
    | hello =>
      obtain ⟨fs, hfs, rfl⟩ := frames_of_foldlM
        (fun e : Bytes × Bytes × Int => (id, Zgs.Message.publish e.1 e.2.1 0)) _ hm
      obtain ⟨r', hposts, hfol⟩ := hf'.posts hfs
      have hlists : r.tuples.Lists h.listing := by
        rw [← hf.tuples, (reaped_iff _ _).1 hr]
        exact lists_listing h
      refine ⟨r', .hello hdec hlists ?_, hfol, hr'⟩
      rw [listing, List.map_map]
      exact hposts
    | publish key value ttl =>
      obtain ⟨r', ha, hfol, hkeep⟩ := hf'.accept hnow (hr'.notStale key value) hm
      exact ⟨r', .publish hdec ha, hfol, hkeep hr'⟩
    | ping =>
      obtain ⟨fs, hfs, rfl⟩ := frames_of_foldlM (fun id => (id, Zgs.Message.pong)) _ hm
      obtain ⟨r', hposts, hfol⟩ := hf'.posts hfs
      exact ⟨r', .ping hdec hposts, hfol, hr'⟩
    | pong =>
      cases hm
      exact ⟨_, .quiet (Or.inr hdec), hf', hr'⟩
    | invalid =>
      obtain ⟨fs, hfs, rfl⟩ := frames_of_foldlM (fun id => (id, Zgs.Message.invalid)) _ hm
      obtain ⟨r', hposts, hfol⟩ := hf'.posts hfs
      exact ⟨r', .invalid hdec hposts, hfol, hr'⟩

theorem Follows.drain (hf : Follows env.now h r) (hr : Reaped env.now h) (hnow : 0 ≤ env.now)
    {messages : List (List Bytes)}
    (hm : messages.foldlM (fun h frames => h.handleMessage env frames) h = .ok h') :
    ∃ r', r.Drains env messages r' ∧ Follows env.now h' r' := by
  induction messages generalizing h r with
  | nil =>
    cases hm
    exact ⟨r, .nil, hf⟩
  | cons frames messages ih =>
    rw [List.foldlM_cons] at hm
    obtain ⟨h1, hh1, hm⟩ := bind_eq_ok_iff.1 hm
    obtain ⟨r1, hr1, hf1, hreap1⟩ := hf.message hr hnow hh1
    obtain ⟨r', hr', hf'⟩ := ih hf1 hreap1 hm
    exact ⟨r', .cons hr1 hr', hf'⟩

/-! ## Runs -/

/-- The call does not look at a tuple that has run out and was not reaped. -/
def LooksLive (h : Hub) (env : Env) : HubCall → Prop
  | .publish key value _ => NotStale env.now h key value
  | .tuples => Reaped env.now h
  | _ => True

/-- The reference answers a call as the hub does. -/
theorem Follows.call {clock : Int} (hf : Follows clock h r) (h0 : 0 ≤ clock) (hclock : clock ≤ env.now)
    {c : HubCall} (hl : h.LooksLive env c) {reply : HubReply} (hc : h.call env c = .ok (reply, h')) :
    ∃ r', r.Answers env c reply r' ∧ Follows env.now h' r' := by
  have hnow := h0.trans hclock
  have hup := hf.upTo hclock
  cases c with
  | publish key value ttl =>
    obtain ⟨h1, hh1, hc⟩ := bind_eq_ok_iff.1 hc
    cases hc
    obtain ⟨r', ha, hf', -⟩ := hup.accept hnow hl hh1
    exact ⟨r', .publish ha, hf'⟩
  | unpublish key =>
    cases hc
    refine ⟨_, .unpublish, ?_, hf.pending, hf.clients, hf.outbox⟩
    rw [lasting_unpublish, Expiring.live_remove, hup.tuples]
  | deliveries =>
    cases hc
    rw [deliveries, hf.pending]
    exact ⟨_, .deliveries, hup.tuples, rfl, hf.clients, hf.outbox⟩
  | tuples =>
    cases hc
    refine ⟨_, .tuples ?_, hup⟩
    rw [← hup.tuples, (reaped_iff _ _).1 hl]
    exact lists_listing h
  | handleSocket messages =>
    obtain ⟨⟨ds, h1⟩, hh1, hc⟩ := bind_eq_ok_iff.1 hc
    cases hc
    obtain ⟨h2, hh2, hh1⟩ := bind_eq_ok_iff.1 hh1
    cases hh1
    obtain ⟨r', hdrain, hf'⟩ := hup.reap.drain (reaped_reap env h) hnow hh2
    rw [hf'.pending]
    exact ⟨_, .handleSocket hdrain, hf'.tuples, rfl, hf'.clients, hf'.outbox⟩

section Run

variable {P : Hub → Env → HubCall → Prop} {clock : Int} {calls : List (Env × HubCall)}
  {replies : List HubReply}

theorem RunBy.clock_nonneg (hr : RunBy P clock calls replies h) : 0 ≤ clock := by
  induction hr with
  | init => exact le_rfl
  | call hr hclock hp hc ih => exact ih.trans hclock

/-- The hub and the reference give the same replies and have sent the same frames. -/
def SameAsReference (calls : List (Env × HubCall)) (replies : List HubReply) (h : Hub) : Prop :=
  ∃ r, Registry.Run calls replies r ∧ r.outbox = h.outbox ∧ r.pending = h.pending

/-- As long as no call looks at a tuple that has run out, nobody notices that the hub reaps late. -/
theorem RunBy.sameAsReference (hr : RunBy LooksLive clock calls replies h) :
    SameAsReference calls replies h := by
  suffices hsim : ∃ r, Registry.Run calls replies r ∧ Follows clock h r by
    obtain ⟨r, hrun, hf⟩ := hsim
    exact ⟨r, hrun, hf.outbox.symm, hf.pending.symm⟩
  induction hr with
  | init => exact ⟨Registry.init, .init, init_follows⟩
  | call hr hclock hp hc ih =>
    obtain ⟨r, hrun, hf⟩ := ih
    obtain ⟨r', ha, hf'⟩ := hf.call hr.clock_nonneg hclock hp hc
    exact ⟨r', .call hrun ha, hf'⟩

end Run

/-! ## A tuple that has run out -/

/-- A tuple that lasts for a millisecond. -/
def brief : HubCall := .publish [1] [2] 1

/-- The hub knows the tuple, whose time is up. -/
def holdingBrief : Hub := ⟨Dict.empty.set [1] ([2], 1000000), [([1], [2])], [], []⟩

theorem run_brief {P : Hub → Env → HubCall → Prop} (hp : P Hub.init (Env.calm 0) brief) :
    RunBy P 0 [(Env.calm 0, brief)] [.done] holdingBrief :=
  .call .init le_rfl hp rfl

end Hub

namespace Registry

variable {calls : List (Env × HubCall)} {replies : List HubReply} {env : Env} {c : HubCall} {reply : HubReply}
  {r : Registry}

/-- The last call of a run. -/
theorem Run.last (hr : Run (calls ++ [(env, c)]) (replies ++ [reply]) r) :
    ∃ r0, Run calls replies r0 ∧ r0.Answers env c reply r := by
  generalize hcs : calls ++ [(env, c)] = cs at hr
  generalize hrs : replies ++ [reply] = rs at hr
  cases hr with
  | init => simp at hcs
  | call hr ha =>
    obtain ⟨rfl, hc⟩ := List.append_inj' hcs rfl
    obtain ⟨rfl, hreply⟩ := List.append_inj' hrs rfl
    cases hc
    cases hreply
    exact ⟨_, hr, ha⟩

theorem Run.first (hr : Run [] replies r) : r = Registry.init := by
  generalize hcs : ([] : List (Env × HubCall)) = cs at hr
  cases hr with
  | init => rfl
  | call hr ha => simp at hcs

/-- A tuple that is not live is stored and delivered. -/
theorem Accepts.of_not_holds {key value : Bytes} {ttl : Nat} {r' : Registry} (ha : r.Accepts env key value ttl r')
    (hnew : ¬ r.tuples.Holds key value) :
    r'.pending = r.pending ++ [(key, value)] ∧
      r'.tuples = r.tuples.store key value (deadline env.now ttl) := by
  cases ha with
  | known hold => exact absurd hold hnew
  | news h hposts =>
    obtain ⟨frames, -, rfl⟩ := hposts
    exact ⟨rfl, rfl⟩

end Registry

namespace Hub

/-- The tuple runs out, is reaped in a drain, and is published anew. -/
def briefCalls : List (Env × HubCall) :=
  [(Env.calm 0, brief), (Env.calm 2000000, .handleSocket [[[7], helloBytes]]), (Env.calm 2000000, .tuples),
    (Env.calm 2000000, brief)]

def briefReplies : List HubReply := [.done, .delivered [([1], [2])], .reported Dict.empty, .done]

theorem sameAsReference_brief : ∃ h, RunBy LooksLive 2000000 briefCalls briefReplies h ∧
    SameAsReference briefCalls briefReplies h := by
  have hmissing : NotStale 2000000 ⟨Dict.empty, [], [[7]], []⟩ [1] [2] := by
    intro expiry hget
    cases hget
  have hbrief : RunBy LooksLive 0 [(Env.calm 0, brief)] [.done] holdingBrief :=
    run_brief fun expiry hget => by cases hget
  have hdrained : RunBy LooksLive (Env.calm 2000000).now
      ([(Env.calm 0, brief)] ++ [(Env.calm 2000000, .handleSocket [[[7], helloBytes]])])
      ([.done] ++ [.delivered [([1], [2])]]) ⟨Dict.empty, [], [[7]], []⟩ :=
    .call hbrief (by decide) trivial rfl
  have hlisted := RunBy.call hdrained (le_refl (Env.calm 2000000).now)
    (show LooksLive _ _ .tuples from fun e he => by cases he) rfl
  have hrun := RunBy.call hlisted (le_refl (Env.calm 2000000).now) (show LooksLive _ _ brief from hmissing) rfl
  exact ⟨_, hrun, hrun.sameAsReference⟩

/-- Published anew after its time is up, the tuple is taken for a duplicate, and reaped. -/
theorem not_sameAsReference : ¬ ∀ (clock : Int) (calls : List (Env × HubCall)) (replies : List HubReply)
    (h : Hub), Run clock calls replies h → SameAsReference calls replies h := by
  intro hall
  have hagain : RunBy (fun _ _ _ => True) (Env.calm 2000000).now
      ([(Env.calm 0, brief)] ++ [(Env.calm 2000000, .publish [1] [2] 0)]) ([.done] ++ [.done]) holdingBrief :=
    .call (run_brief trivial) (by decide) trivial rfl
  have hdrained : RunBy (fun _ _ _ => True) (Env.calm 2000000).now
      (([(Env.calm 0, brief)] ++ [(Env.calm 2000000, .publish [1] [2] 0)]) ++
        [(Env.calm 2000000, .handleSocket [])])
      (([.done] ++ [.done]) ++ [.delivered [([1], [2])]]) Hub.init :=
    .call hagain le_rfl trivial rfl
  obtain ⟨r3, hr3, -⟩ := hall _ _ _ _ hdrained
  obtain ⟨r2, hr2, ha3⟩ := hr3.last
  obtain ⟨r1, hr1, ha2⟩ := hr2.last
  have hr1' : Registry.Run ([] ++ [(Env.calm 0, brief)]) ([] ++ [.done]) r1 := hr1
  obtain ⟨r0, hr0, ha1⟩ := hr1'.last
  obtain rfl := hr0.first
  cases ha1 with
  | publish ha1 =>
  cases ha2 with
  | publish ha2 =>
  obtain ⟨hpending1, htuples1⟩ := ha1.of_not_holds (by
    rintro ⟨deadline, hold⟩
    cases hold)
  obtain ⟨hpending2, -⟩ := ha2.of_not_holds (by
    rintro ⟨deadline, hold⟩
    rw [Registry.upTo, htuples1, Expiring.live_eq_some_iff] at hold
    obtain ⟨hstored, hlast⟩ := hold
    cases hstored
    exact absurd hlast (by decide))
  have hdelivered : r2.pending = [([1], [2])] := by
    generalize hreply : HubReply.delivered [([1], [2])] = reply at ha3
    cases ha3 with
    | handleSocket hdrain =>
      cases hdrain
      exact (HubReply.delivered.inj hreply).symm
  rw [hpending2, Registry.upTo, hpending1] at hdelivered
  cases hdelivered

end Hub

end Zre
