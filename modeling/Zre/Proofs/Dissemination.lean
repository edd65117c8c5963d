import Zre.Lib.NoticeBoard
import Zre.Proofs.Hub

/-!
# Proofs: what the hub tells its clients

A hub is a notice board. Its tuples are the notices, the routing ids it has seen are the readers, and a
HELLO is a subscription. So a client that has sent a HELLO was told the current value of every tuple last.
-/

namespace Zre

open Fallible

namespace Hub

/-! ## What is observed -/

/-- What a body for a client says about a key. -/
def tells (s : Bytes × Bytes) : Option (Bytes × Bytes × Bytes) :=
  match Zgs.decode s.2 with
  | .ok (some (.publish key value _)) => some (s.1, key, value)
  | _ => none

/-- The value in the last PUBLISH for `key` that went to a client. -/
def lastPublished (h : Hub) (routingId key : Bytes) : Option Bytes :=
  NoticeBoard.lastTold (h.outbox.filterMap tells) routingId key

/-- The change that a tuple makes to the table. -/
def changes (h : Hub) (key value : Bytes) : List (Bytes × Bytes) :=
  if (h.tuples.get key).map Prod.fst = some value then [] else [(key, value)]

/-- The change that a message makes to the table. -/
def changesOf (h : Hub) (frames : List Bytes) : List (Bytes × Bytes) :=
  match frames with
  | [_, body] =>
    match Zgs.decode body with
    | .ok (some (.publish key value _)) => h.changes key value
    | _ => []
  | _ => []

/-- The client that sends a HELLO. -/
def greeter (frames : List Bytes) : List Bytes :=
  match frames with
  | [routingId, body] =>
    match Zgs.decode body with
    | .ok (some .hello) => [routingId]
    | _ => []
  | _ => []

/-- The runs of a hub whose tuples can all be encoded: the hub that a run leads to, the clients that have
sent a HELLO, the changes that were accepted, and what was returned to the owner. A body on which the
decoder raises ends a drain after its sender was entered. -/
inductive Runs : Hub → List Bytes → List (Bytes × Bytes) → List (Bytes × Bytes) → Prop where
  | init : Runs init [] [] []
  | reap {h : Hub} {greeted : List Bytes} {accepted returned : List (Bytes × Bytes)} (env : Env)
      (hrun : Runs h greeted accepted returned) : Runs (h.reap env) greeted accepted returned
  | message {h h' : Hub} {greeted : List Bytes} {accepted returned : List (Bytes × Bytes)} (env : Env)
      (frames : List Bytes) (hrun : Runs h greeted accepted returned) (hfits : FitsWire frames)
      (hm : h.handleMessage env frames = .ok h') :
      Runs h' (greeted ++ greeter frames) (accepted ++ h.changesOf frames) returned
  | raise {h : Hub} {greeted : List Bytes} {accepted returned : List (Bytes × Bytes)} {e : PyError}
      (routingId body : Bytes) (hrun : Runs h greeted accepted returned)
      (hd : Zgs.decode body = .error e) : Runs (h.addClient routingId) greeted accepted returned
  | deliver {h : Hub} {greeted : List Bytes} {accepted returned : List (Bytes × Bytes)}
      (hrun : Runs h greeted accepted returned) :
      Runs { h with pending := [] } greeted accepted (returned ++ h.pending)
  | publish {h h' : Hub} {greeted : List Bytes} {accepted returned : List (Bytes × Bytes)} (env : Env)
      (key value : Bytes) (ttl : Nat) (hrun : Runs h greeted accepted returned)
      (hfits : Zgs.Fits key value) (ht : ttl < 4294967296) (hp : h.publish env key value ttl = .ok h') :
      Runs h' greeted (accepted ++ h.changes key value) returned
  | unpublish {h : Hub} {greeted : List Bytes} {accepted returned : List (Bytes × Bytes)} (key : Bytes)
      (hrun : Runs h greeted accepted returned) : Runs (h.unpublish key) greeted accepted returned

/-! ## What a message does -/

theorem tells_publish (id : Bytes) {key value : Bytes} (hf : Zgs.Fits key value) {ttl : Nat}
    (ht : ttl < 4294967296) : tells (id, Zgs.publishBytes key value ttl) = some (id, key, value) := by
  have hdec : Zgs.decode (Zgs.publishBytes key value ttl) = .ok (some (.publish key value ttl)) :=
    Zgs.decode_publishBytes hf ht
  simp [tells, hdec]

theorem greeter_eq (id : Bytes) {body : Bytes} {m : Option Zgs.Message} (hdec : Zgs.decode body = .ok m) :
    greeter [id, body] = if m = some .hello then [id] else [] := by
  simp only [greeter, hdec]
  cases m with
  | none => rfl
  | some m => cases m <;> rfl

theorem changesOf_eq_nil (h : Hub) (id : Bytes) {body : Bytes} {m : Option Zgs.Message}
    (hdec : Zgs.decode body = .ok m) (hm : ∀ key value ttl, m ≠ some (.publish key value ttl)) :
    h.changesOf [id, body] = [] := by
  simp only [changesOf, hdec]
  cases m with
  | none => rfl
  | some m =>
    cases m with
    | publish key value ttl => exact absurd rfl (hm key value ttl)
    | hello | ping | pong | invalid => rfl

/-- A message is ignored, or enters its sender and then is a HELLO, a tuple, or answered at most. -/
theorem message_cases {env : Env} {h h' : Hub} (hs : h.Sound) {frames : List Bytes} (hf : FitsWire frames)
    (hm : h.handleMessage env frames = .ok h') :
    (h' = h ∧ greeter frames = [] ∧ h.changesOf frames = []) ∨ ∃ id body, frames = [id, body] ∧
      ((h' = { h.addClient id with outbox := (h.addClient id).outbox ++ (h.addClient id).snapshotFrames id } ∧
          greeter frames = [id] ∧ h.changesOf frames = []) ∨
        (∃ key value ttl, Zgs.Fits key value ∧ ttl < 4294967296 ∧
          (h.addClient id).accept env key value ttl = .ok h' ∧ greeter frames = [] ∧
          h.changesOf frames = h.changes key value) ∨
        ∃ answers, (∀ s ∈ answers, tells s = none) ∧
          h' = { h.addClient id with outbox := (h.addClient id).outbox ++ answers } ∧
          greeter frames = [] ∧ h.changesOf frames = []) := by
  unfold handleMessage at hm
  split at hm
  swap
  · rename_i hlen
    cases hm
    refine Or.inl ⟨rfl, ?_, ?_⟩
    · unfold greeter
      split
      · exact absurd rfl (hlen _ _)
      · rfl
    · unfold changesOf
      split
      · exact absurd rfl (hlen _ _)
      · rfl
  rename_i id body
  obtain ⟨m, hdec, hm⟩ := bind_eq_ok_iff.1 hm
  have hs' : (h.addClient id).Sound := hs
  have hgreeter := greeter_eq id hdec
  have hchanges := fun hne => changesOf_eq_nil h id hdec hne
  refine Or.inr ⟨id, body, rfl, ?_⟩
  cases m with
  | none =>
    cases hm
    exact Or.inr (Or.inr ⟨[], by simp, by simp, hgreeter, hchanges (by simp)⟩)
  | some m =>
    cases m with
    | hello =>
      simp only [snapshot_ok hs'] at hm
      cases hm
      exact Or.inl ⟨rfl, hgreeter, hchanges (by simp)⟩
    | publish key value ttl =>
      refine Or.inr (Or.inl ⟨key, value, ttl, hf id body key value ttl rfl hdec, Zgs.decode_ttl hdec, hm,
        hgreeter, ?_⟩)
      simp only [changesOf, hdec]
    | ping =>
      simp only [sendEach_ok (show Zgs.encode .pong = _ from rfl)] at hm
      cases hm
      have hsilent : ∀ s ∈ [id].map fun id => (id, Zgs.signature ++ [Zgs.Message.pong.command, Zgs.version]),
          tells s = none := by
        intro s hs
        rw [List.mem_singleton.1 hs]
        rfl
      exact Or.inr (Or.inr ⟨_, hsilent, rfl, hgreeter, hchanges (by simp)⟩)
    | pong =>
      cases hm
      exact Or.inr (Or.inr ⟨[], by simp, by simp, hgreeter, hchanges (by simp)⟩)
    | invalid =>
      simp only [sendEach_ok (show Zgs.encode .invalid = _ from rfl)] at hm
      cases hm
      have hsilent : ∀ s ∈ [id].map fun id => (id, Zgs.signature ++ [Zgs.Message.invalid.command, Zgs.version]),
          tells s = none := by
        intro s hs
        rw [List.mem_singleton.1 hs]
        rfl
      exact Or.inr (Or.inr ⟨_, hsilent, rfl, hgreeter, hchanges (by simp)⟩)

/-! ## The hub as a notice board -/

/-- The notice board of a hub. -/
def board (h : Hub) (greeted : List Bytes) : NoticeBoard Bytes Bytes Bytes where
  notices key := (h.tuples.get key).map Prod.fst
  readers := {id | id ∈ h.clients}
  subscribers := {id | id ∈ greeted}
  told := h.outbox.filterMap tells

/-- What an accepted tuple does to a hub. -/
theorem accept_eq_ok {env : Env} {h h' : Hub} {key value : Bytes} {ttl : Nat} (hf : Zgs.Fits key value)
    (ht : ttl < 4294967296) (ha : h.accept env key value ttl = .ok h') :
    ((h.tuples.get key).map Prod.fst = some value ∧ h' = h) ∨
      (h.tuples.get key).map Prod.fst ≠ some value ∧ h' = { h with
        tuples := h.tuples.set key (value, expiry env.now ttl)
        pending := h.pending ++ [(key, value)]
        outbox := h.outbox ++ (env.order h.clients).map fun id => (id, Zgs.publishBytes key value ttl) } := by
  unfold accept at ha
  split at ha
  · rename_i hold
    cases ha
    exact Or.inl ⟨hold, rfl⟩
  · rename_i hnew
    rw [sendEach_ok (Zgs.encode_publish hf ht)] at ha
    cases ha
    exact Or.inr ⟨hnew, rfl⟩

/-- An accepted tuple is put up on the board, or hangs there already. -/
theorem board_accept {env : Env} {h h' : Hub} {key value : Bytes} {ttl : Nat} (hf : Zgs.Fits key value)
    (ht : ttl < 4294967296) (ha : h.accept env key value ttl = .ok h') (greeted : List Bytes) :
    NoticeBoard.Steps (h.board greeted) (h'.board greeted) := by
  obtain ⟨-, rfl⟩ | ⟨-, rfl⟩ := accept_eq_ok hf ht ha
  · exact .refl
  have hnotices : (fun k => ((h.tuples.set key (value, expiry env.now ttl)).get k).map Prod.fst) =
      Function.update (h.board greeted).notices key (some value) := by
    funext k
    simp only [Dict.get_set, Function.update_apply, eq_comm (a := k)]
    split <;> rfl
  have htold : (h.outbox ++ (env.order h.clients).map fun id => (id, Zgs.publishBytes key value ttl)).filterMap
      tells = (h.board greeted).told ++ (env.order h.clients).map fun id => (id, key, value) := by
    rw [List.filterMap_append, List.filterMap_map, ← List.filterMap_eq_map]
    congr 1
    exact List.filterMap_congr fun id _ => tells_publish id hf ht
  unfold board
  rw [hnotices, htold]
  refine .single (.post (h.board greeted) key value _ ?_ (by simp))
  intro id hid
  exact List.mem_map_of_mem ((env.order_perm h.clients).mem_iff.2 hid)

theorem board_remove {h : Hub} {tuples : Dict Bytes (Bytes × Int)} (greeted : List Bytes)
    (hless : ∀ k v, tuples.get k = some v → h.tuples.get k = some v) :
    NoticeBoard.Steps (h.board greeted) (({ h with tuples := tuples } : Hub).board greeted) := by
  refine .single (.remove (h.board greeted) _ fun k v hk => ?_)
  obtain ⟨e, he, rfl⟩ := Option.map_eq_some_iff.1 hk
  show (h.tuples.get k).map Prod.fst = _
  rw [hless k e he]
  rfl

theorem mem_addClient (h : Hub) (id : Bytes) : id ∈ (h.addClient id).clients := by
  unfold addClient
  simp only []
  split
  · assumption
  · simp

theorem board_addClient (h : Hub) (id : Bytes) (greeted : List Bytes) :
    NoticeBoard.Steps (h.board greeted) ((h.addClient id).board greeted) := by
  have hreaders : {i | i ∈ (h.addClient id).clients} = insert id {i | i ∈ h.clients} := by
    ext i
    simp only [addClient, Set.mem_ofPred_eq, Set.mem_insert_iff]
    split
    · rename_i hmem
      exact ⟨Or.inr, fun hi => hi.elim (fun he => he ▸ hmem) fun hi => hi⟩
    · simp [or_comm]
  unfold board
  rw [hreaders]
  exact .single (.enter (h.board greeted) id)

/-- The answer to a HELLO is a subscription. -/
theorem board_snapshot {h : Hub} (hs : h.Sound) {id : Bytes} (hid : id ∈ h.clients) (greeted : List Bytes) :
    NoticeBoard.Steps (h.board greeted)
      (({ h with outbox := h.outbox ++ h.snapshotFrames id } : Hub).board (greeted ++ [id])) := by
  have hsubscribers : {i | i ∈ greeted ++ [id]} = insert id {i | i ∈ greeted} := by
    ext i
    simp [or_comm]
  have htold : (h.outbox ++ h.snapshotFrames id).filterMap tells =
      (h.board greeted).told ++ h.tuples.entries.map fun e => (id, e.1, e.2.1) := by
    unfold snapshotFrames
    rw [List.filterMap_append, List.filterMap_map, ← List.filterMap_eq_map]
    congr 1
    exact List.filterMap_congr fun e he => tells_publish id (hs.of_mem he) (by decide)
  unfold board
  rw [hsubscribers, htold]
  refine .single (.subscribe (h.board greeted) id _ hid ?_ ?_)
  · intro k v hk
    obtain ⟨e, he, rfl⟩ := Option.map_eq_some_iff.1 hk
    exact List.mem_map.2 ⟨(k, e), h.tuples.get_eq_some_iff.1 he, rfl⟩
  · intro t ht
    obtain ⟨e, he, rfl⟩ := List.mem_map.1 ht
    show (h.tuples.get e.1).map Prod.fst = _
    rw [h.tuples.get_eq_some_iff.2 he]
    rfl

/-- A message is followed by the board. -/
theorem board_message {env : Env} {h h' : Hub} (hs : h.Sound) {frames : List Bytes} (hf : FitsWire frames)
    (hm : h.handleMessage env frames = .ok h') (greeted : List Bytes) :
    NoticeBoard.Steps (h.board greeted) (h'.board (greeted ++ greeter frames)) := by
  obtain ⟨rfl, hg, -⟩ | ⟨id, body, rfl, hcases⟩ := message_cases hs hf hm
  · rw [hg, List.append_nil]
  refine (board_addClient h id greeted).trans ?_
  obtain ⟨rfl, hg, -⟩ | ⟨key, value, ttl, hfits, ht, hacc, hg, -⟩ | ⟨answers, hnone, rfl, hg, -⟩ := hcases
  · rw [hg]
    exact board_snapshot (h := h.addClient id) hs (mem_addClient h id) greeted
  · rw [hg, List.append_nil]
    exact board_accept hfits ht hacc greeted
  · have hsilent : answers.filterMap tells = [] := List.filterMap_eq_nil_iff.2 hnone
    rw [hg, List.append_nil]
    unfold board
    rw [List.filterMap_append, hsilent, List.append_nil]

/-! ## Runs -/

theorem accept_pending {env : Env} {h h' : Hub} {key value : Bytes} {ttl : Nat} (hf : Zgs.Fits key value)
    (ht : ttl < 4294967296) (ha : h.accept env key value ttl = .ok h') :
    h'.pending = h.pending ++ h.changes key value := by
  unfold changes
  obtain ⟨hold, rfl⟩ | ⟨hnew, rfl⟩ := accept_eq_ok hf ht ha
  · rw [if_pos hold, List.append_nil]
  · rw [if_neg hnew]

theorem message_pending {env : Env} {h h' : Hub} (hs : h.Sound) {frames : List Bytes} (hf : FitsWire frames)
    (hm : h.handleMessage env frames = .ok h') : h'.pending = h.pending ++ h.changesOf frames := by
  obtain ⟨rfl, -, hc⟩ | ⟨id, body, rfl, hcases⟩ := message_cases hs hf hm
  · rw [hc, List.append_nil]
  obtain ⟨rfl, -, hc⟩ | ⟨key, value, ttl, hfits, ht, hacc, -, hc⟩ | ⟨answers, -, rfl, -, hc⟩ := hcases
  · rw [hc, List.append_nil]
    rfl
  · rw [hc]
    exact accept_pending (h := h.addClient id) hfits ht hacc
  · rw [hc, List.append_nil]
    rfl

theorem message_sound {env : Env} {h h' : Hub} (hs : h.Sound) {frames : List Bytes} (hf : FitsWire frames)
    (hm : h.handleMessage env frames = .ok h') : h'.Sound := by
  obtain ⟨rfl, -⟩ | ⟨id, body, rfl, hcases⟩ := message_cases hs hf hm
  · exact hs
  have hs' : (h.addClient id).Sound := hs
  obtain ⟨rfl, -⟩ | ⟨key, value, ttl, hfits, ht, hacc, -⟩ | ⟨answers, -, rfl, -⟩ := hcases
  · exact hs
  · obtain ⟨h1, hh1, hs1⟩ := accept_ok env hs' hfits ht
    rw [hh1] at hacc
    cases hacc
    exact hs1
  · exact hs

section Runs

variable {h : Hub} {greeted : List Bytes} {accepted returned : List (Bytes × Bytes)}

theorem unpublish_sound {h : Hub} (hs : h.Sound) (key : Bytes) : (h.unpublish key).Sound := by
  intro k v e hk
  exact hs k v e (Dict.get_of_get_pop hk)

theorem Runs.sound (hrun : Runs h greeted accepted returned) : h.Sound := by
  induction hrun with
  | init => exact init_sound
  | reap env _ ih => exact reap_sound env ih
  | message env frames _ hfits hm ih => exact message_sound ih hfits hm
  | raise | deliver => assumption
  | publish env key value ttl _ hfits ht hp ih =>
    obtain ⟨h1, hh1, hs1⟩ := accept_ok env ih hfits ht
    rw [Hub.publish, hh1] at hp
    cases hp
    exact hs1
  | unpublish key _ ih => exact unpublish_sound ih key

/-- The hub of a run is the board of a run. -/
theorem Runs.board (hrun : Runs h greeted accepted returned) :
    NoticeBoard.Steps (Hub.init.board []) (h.board greeted) := by
  induction hrun with
  | init => exact .refl
  | reap env _ ih => exact ih.trans (board_remove _ fun k v hk => Dict.get_of_get_foldl_pop hk)
  | message env frames hrun hfits hm ih => exact ih.trans (board_message hrun.sound hfits hm _)
  | raise id body _ hd ih => exact ih.trans (board_addClient _ id _)
  | deliver _ ih => exact ih
  | publish env key value ttl _ hfits ht hp ih => exact ih.trans (board_accept hfits ht hp _)
  | unpublish key _ ih =>
    refine ih.trans (board_remove _ fun k v hk => ?_)
    exact Dict.get_of_get_pop hk

/-- Every accepted change is returned once, in order, or still waits. -/
theorem Runs.account (hrun : Runs h greeted accepted returned) : returned ++ h.pending = accepted := by
  induction hrun with
  | init => rfl
  | reap | raise | unpublish => assumption
  | message env frames hrun hfits hm ih =>
    rw [message_pending hrun.sound hfits hm, ← List.append_assoc, ih]
  | deliver _ ih => rw [List.append_nil, ih]
  | publish env key value ttl _ hfits ht hp ih =>
    rw [accept_pending hfits ht hp, ← List.append_assoc, ih]

theorem Runs.messages {env : Env} {h' : Hub} {messages : List (List Bytes)}
    (hrun : Runs h greeted accepted returned) (hfits : ∀ m ∈ messages, FitsWire m)
    (hloop : messages.foldlM (fun h frames => h.handleMessage env frames) h = .ok h') :
    ∃ accepted', Runs h' (greeted ++ messages.flatMap greeter) accepted' returned := by
  induction messages generalizing h greeted accepted with
  | nil =>
    cases hloop
    exact ⟨accepted, by simpa using hrun⟩
  | cons m messages ih =>
    rw [List.foldlM_cons] at hloop
    obtain ⟨h1, hm, hloop⟩ := bind_eq_ok_iff.1 hloop
    have hrun' := hrun.message env m (hfits m (by simp)) hm
    obtain ⟨accepted', hrun''⟩ := ih hrun' (fun x hx => hfits x (by simp [hx])) hloop
    exact ⟨accepted', by simpa using hrun''⟩

/-- The drain of `handle_socket` is a part of a run: a pass of the reaper, the messages, and a delivery. -/
theorem Runs.handleSocket {env : Env} {h' : Hub} {ds : List (Bytes × Bytes)} {messages : List (List Bytes)}
    (hrun : Runs h greeted accepted returned) (hfits : ∀ m ∈ messages, FitsWire m)
    (hr : h.handleSocket env messages = .ok (ds, h')) :
    ∃ accepted', Runs h' (greeted ++ messages.flatMap greeter) accepted' (returned ++ ds) := by
  obtain ⟨h1, hloop, hr⟩ := bind_eq_ok_iff.1 hr
  cases hr
  obtain ⟨accepted', hrun'⟩ := (hrun.reap env).messages hfits hloop
  exact ⟨accepted', hrun'.deliver⟩

/-- Only the decoder raises, after the sender was entered. -/
theorem handleMessage_raises {env : Env} (hs : h.Sound) {frames : List Bytes} (hf : FitsWire frames)
    {e : PyError} (hm : h.handleMessage env frames = .error e) :
    ∃ id body, frames = [id, body] ∧ Zgs.decode body = .error e := by
  by_contra hno
  have hd : Decodes frames := by
    rintro id body rfl
    cases hdec : Zgs.decode body with
    | ok m => exact ⟨m, rfl⟩
    | error e' =>
      refine absurd ⟨id, body, rfl, ?_⟩ hno
      unfold handleMessage at hm
      simp only [hdec, bind_error] at hm
      cases hm
      exact hdec
  obtain ⟨h', hok, -⟩ := handleMessage_ok env hs hd hf
  rw [hok] at hm
  cases hm

/-- A drain that raises is a part of a run as far as it gets: up to the sender of the rejected body. -/
theorem Runs.handleSocket_raises {env : Env} {e : PyError} {messages : List (List Bytes)}
    (hrun : Runs h greeted accepted returned) (hfits : ∀ m ∈ messages, FitsWire m)
    (hr : h.handleSocket env messages = .error e) :
    ∃ before id body after h1 accepted', messages = before ++ [id, body] :: after ∧
      before.foldlM (fun h frames => h.handleMessage env frames) (h.reap env) = .ok h1 ∧
      Zgs.decode body = .error e ∧
      Runs (h1.addClient id) (greeted ++ before.flatMap greeter) accepted' returned := by
  have hloop : messages.foldlM (fun h frames => h.handleMessage env frames) (h.reap env) = .error e := by
    rcases bind_eq_error_iff.1 hr with herr | ⟨h1, -, hret⟩
    · exact herr
    · cases hret
  obtain ⟨before, m, after, h1, rfl, hbefore, hm⟩ := foldlM_eq_error hloop
  obtain ⟨accepted', hrun'⟩ := (hrun.reap env).messages (fun x hx => hfits x (by simp [hx])) hbefore
  obtain ⟨id, body, rfl, hdec⟩ := handleMessage_raises hrun'.sound (hfits m (by simp)) hm
  exact ⟨before, id, body, after, h1, accepted', rfl, hbefore, hdec, hrun'.raise id body hdec⟩

/-- Whoever has sent a HELLO was told the current value of every tuple last, and the owner gets every
accepted change once, in order. -/
theorem Runs.disseminates (hrun : Runs h greeted accepted returned) :
    (∀ id ∈ greeted, ∀ key value expiry, h.tuples.get key = some (value, expiry) →
      h.lastPublished id key = some value) ∧ returned ++ h.pending = accepted := by
  have hstart : (Hub.init.board []).Informed := ⟨by simp [Hub.board], by simp [Hub.board]⟩
  refine ⟨fun id hid key value expiry hk => ?_, hrun.account⟩
  refine (hrun.board.informed hstart).current id hid key value ?_
  show (h.tuples.get key).map Prod.fst = _
  rw [hk]
  rfl

end Runs

/-- A HELLO of the client `7`, a tuple of the owner, and a delivery. -/
theorem disseminates_one : ∃ h, Runs h [[7]] [([0x6B], [0x76])] [([0x6B], [0x76])] ∧
    h.lastPublished [7] [0x6B] = some [0x76] := by
  have hfits : FitsWire [[7], Zgs.signature ++ [1, Zgs.version]] := by
    rintro _ _ key value ttl ⟨⟩ hdec
    cases hdec
  have hkey : Zgs.Fits [0x6B] [0x76] := ⟨by decide, by decide, by decide⟩
  have hgreeted : Runs (init.addClient [7]) [[7]] [] [] :=
    Runs.init.message (Env.calm 0) [[7], Zgs.signature ++ [1, Zgs.version]] hfits rfl
  obtain ⟨h, hp, -⟩ := accept_ok (Env.calm 0) hgreeted.sound hkey (show 0 < 4294967296 by decide)
  have htold : Runs h [[7]] [([0x6B], [0x76])] [] :=
    hgreeted.publish (Env.calm 0) [0x6B] [0x76] 0 hkey (by decide) hp
  have hpending : h.pending = [([0x6B], [0x76])] := htold.disseminates.2
  refine ⟨_, hpending ▸ htold.deliver, ?_⟩
  obtain ⟨hold, -⟩ | ⟨-, rfl⟩ := accept_eq_ok hkey (by decide) hp
  · cases hold
  · exact htold.disseminates.1 [7] (by simp) [0x6B] [0x76] _ (Dict.get_set_self _ _ _)

end Hub

end Zre
