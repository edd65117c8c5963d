import Zre.Proofs.Returns
import Zre.Proofs.RoundTrip

/-!
# Proofs: what a peer can make a node raise

The decoder rejects malformed frames, and the handlers only raise where they repeat data of the peer in
a short string: an identity that has grown past 255 bytes, or an endpoint probe that fails. `Withstands`
says when a message does neither.
-/

namespace Zre

open Fallible

namespace Node

/-! ## The condition -/

/-- An identity still fits a short string after it was decoded, upper-cased and encoded again. -/
def Repeats (id : Str) : Prop := (encodeStr id).length ≤ maxStringBytes

/-- The challenger of an ELECT is adopted. -/
def Adopts (n : Node) (g : Bytes) (id : Str) : Prop :=
  ∀ e, (n.group g).election = some e → id < e.caw

/-- An ELECT from the peer `r` can be repeated, or is not repeated to anybody. -/
def WithstandsElect (n : Node) (r : Ref) (g : Bytes) (id : Str) : Prop :=
  Repeats id ∨
  (n.Adopts g id ∧ (n.obj r).connected = false ∧
    ∀ s ∈ n.electionNeighbors g, (n.obj s).uuidHex = (n.obj r).uuidHex) ∨
  (¬ n.Adopts g id ∧ ∀ e, (n.group g).election = some e → id = e.caw →
    (n.electionNeighbors g).length ≤ e.erec + 1 →
    ∀ father f, e.father = some father → n.peers.get father = some f →
      (n.obj f).connected = false)

/-- A LEADER can be repeated, or is not repeated to anybody. -/
def WithstandsLeader (n : Node) (g : Bytes) (id : Str) : Prop :=
  Repeats id ∨ ∀ e, (n.group g).election = some e → e.lrec = 0 → n.electionNeighbors g = []

/-- A dial to the address would succeed. -/
def CanDial (env : Env) (n : Node) (rhex addr : Str) (port : Int) : Prop :=
  env.connect n.sockets = true ∧
    (n.cfg.curveSecret = none ∨ ∃ key pub secret,
      n.curveClientArgs addr port (some rhex) = (some key, some pub, some secret))

/-- The node's own HELLO towards the address can be encoded. -/
def CanGreet (env : Env) (n : Node) (addr : Str) : Prop :=
  (∃ endpoint, n.publicEndpointFor env addr = .ok endpoint ∧ endpoint.length ≤ maxStringBytes) ∧
    n.ownGroups.length < 4294967296 ∧ n.headers.entries.length < 4294967296

/-- The dial that answers a HELLO can be followed by the node's own HELLO. -/
def AnswersNew (env : Env) (n : Node) (rhex : Str) (h : HelloFields) : Prop :=
  ∀ addr port, splitEndpoint n.cfg.rt (endpointText h.endpoint) = .ok (addr, port) →
    n.pendingMatch (dialHost addr) port rhex = none →
    CanDial env (n.learnHelloKeys rhex h) rhex (dialHost addr) port → CanGreet env n (dialHost addr)

/-- A HELLO that has to be answered by dialling its sender can be answered. -/
def WithstandsHello (env : Env) (n : Node) (rhex : Str) (h : HelloFields) : Prop :=
  n.running = true → rhex ≠ n.cfg.peerIdHex → h.endpoint ≠ [] → n.peers.get rhex = none →
    n.AnswersNew env rhex h

/-- The fields of a message of the ready peer `r` can be handled. -/
def WithstandsFields (n : Node) (r : Ref) (cmd : UInt8) : Fields → Prop
  | .election g id =>
    if cmd = Cmd.elect then n.WithstandsElect r g (n.wireId (bdec id))
    else n.WithstandsLeader g (n.wireId (bdec id))
  | _ => True

/-- The message of the peer `rhex` can be handled. -/
def WithstandsMsg (env : Env) (n : Node) (rhex : Str) (msg : Msg) : Prop :=
  match msg.fields with
  | .hello h => n.WithstandsHello env rhex h
  | fields => ∀ r, n.peers.get rhex = some r → (n.obj r).ready = true →
      n.WithstandsFields r msg.cmd fields

/-- The multipart message can be handled. -/
def Withstands (env : Env) (n : Node) (frames : List Bytes) : Prop :=
  ∀ routingId data extra uuid msg, frames = routingId :: data :: extra →
    routingUuid routingId = some uuid → Codec.decode data = .ok (some msg) →
    n.WithstandsMsg env (hex uuid) msg

/-! ## Elections of others -/

theorem electionNeighbors_connected {n : Node} {g : Bytes} {r : Ref}
    (h : r ∈ n.electionNeighbors g) : (n.obj r).connected = true := by
  simpa using (List.mem_filter.1 h).2

theorem openGroup_group (n : Node) (g g' : Bytes) : (n.openGroup g).group g' = n.group g' := by
  unfold openGroup
  cases h : n.groups.get g with
  | some _ => rfl
  | none =>
    by_cases hg : g = g'
    · subst hg
      rw [group_setGroup]
      simp [Node.group, h]
    · exact group_setGroup_ne n _ hg

/-- `_require_group` only looks up the contest flag. -/
theorem requireGroup_group (n : Node) (g : Bytes) :
    (n.requireGroup g).group g =
      { n.group g with contest := (n.group g).contest || decide (g ∈ n.contestGroups) } := by
  have hc : (n.openGroup g).contestGroups = n.contestGroups := by rw [openGroup_rest]
  unfold requireGroup
  simp only [hc]
  split
  · rename_i h; simp [openGroup_group, h]
  · rename_i h; simp [openGroup_group, h]

theorem requireGroup_electionNeighbors (n : Node) (g : Bytes) :
    (n.requireGroup g).electionNeighbors g = n.electionNeighbors g := by
  have hobj : (n.requireGroup g).obj = n.obj := by rw [requireGroup_rest]
  unfold electionNeighbors
  rw [requireGroup_group, hobj]

theorem setElection_electionNeighbors (n : Node) (g : Bytes) (e : Option Election) :
    (n.setElection g e).electionNeighbors g = n.electionNeighbors g := by
  unfold electionNeighbors setElection
  rw [group_setGroup]
  rfl

@[simp] theorem setElection_ownWireId (n : Node) (g : Bytes) (e : Option Election) :
    (n.setElection g e).ownWireId = n.ownWireId := rfl

@[simp] theorem setElection_peers (n : Node) (g : Bytes) (e : Option Election) :
    (n.setElection g e).peers = n.peers := rfl

theorem WithstandsElect.congr {n n' : Node} {g : Bytes}
    (he : (n'.group g).election = (n.group g).election)
    (hn : n'.electionNeighbors g = n.electionNeighbors g) (hp : n'.peers = n.peers)
    (hu : ∀ r, (n'.obj r).uuidHex = (n.obj r).uuidHex)
    (hc : ∀ r, (n'.obj r).connected = (n.obj r).connected) (r : Ref) (id : Str) :
    n'.WithstandsElect r g id ↔ n.WithstandsElect r g id := by
  simp only [WithstandsElect, Adopts, he, hn, hp, hu, hc]

theorem WithstandsLeader.congr {n n' : Node} {g : Bytes}
    (he : (n'.group g).election = (n.group g).election)
    (hn : n'.electionNeighbors g = n.electionNeighbors g) (id : Str) :
    n'.WithstandsLeader g id ↔ n.WithstandsLeader g id := by
  simp only [WithstandsLeader, he, hn]

open Classical in
theorem adoptChallenger_eq (env : Env) (n : Node) (r : Ref) (g : Bytes) (id : Str) :
    n.adoptChallenger env r g id =
      if n.Adopts g id then
        sendElections env Cmd.elect g (encodeStr id)
          (n.setElection g (some (newElection id (some (n.obj r).uuidHex) env.now)))
          ((n.electionNeighbors g).filter fun s => (n.obj s).uuidHex ≠ (n.obj r).uuidHex)
      else .ok n := by
  unfold adoptChallenger Adopts
  simp only [setElection_electionNeighbors]
  cases h : (n.group g).election with
  | none => simp; rfl
  | some e => by_cases hlt : id < e.caw <;> simp [hlt]; rfl

theorem own_repeats (n : Node) : Repeats n.ownWireId := by
  rw [Repeats, ownWireId_length]
  decide

/-- Counting a challenge returns, if the candidate can be repeated or the father is out of reach. -/
theorem countChallenger_returns (env : Env) (n : Node) {g : Bytes} (hg : g.length ≤ maxStringBytes)
    {id : Str} (h : Repeats id ∨ ∀ e, (n.group g).election = some e → id = e.caw →
      (n.electionNeighbors g).length ≤ e.erec + 1 →
      ∀ father f, e.father = some father → n.peers.get father = some f →
        (n.obj f).connected = false) :
    ∃ n', n.countChallenger env g id = .ok n' := by
  unfold countChallenger
  cases he : (n.group g).election with
  | none => exact ⟨n, rfl⟩
  | some e =>
    simp only [setElection_electionNeighbors, setElection_ownWireId, setElection_peers]
    split
    · exact ⟨n, rfl⟩
    · rename_i hcaw
      rw [not_not] at hcaw
      split
      · exact ⟨_, rfl⟩
      · rename_i herec
        split
        · rename_i hown
          refine sendElections_returns env _ _ _ hg ?_
          rw [show e.caw = n.ownWireId from hown]
          exact own_repeats n
        · cases hf : e.father with
          | none => exact ⟨_, rfl⟩
          | some father =>
            simp only []
            cases hp : n.peers.get father with
            | none => exact ⟨_, rfl⟩
            | some f =>
              rcases h with h | h
              · exact sendElection_returns env _ _ _ hg (hcaw ▸ h)
              · have hc := h e he hcaw (Nat.not_lt.1 herec) father f hf hp
                exact ⟨_, sendElection_idle env (n := n.setElection g _) hc _ _ _⟩

/-- Counting a challenge raises when it is the last one and its long identity goes to the father. -/
theorem countChallenger_raises (env : Env) {n : Node} (hl : Links n) {g : Bytes} {id : Str}
    (hlong : ¬ Repeats id) {e : Election} (he : (n.group g).election = some e) (hcaw : id = e.caw)
    (herec : (n.electionNeighbors g).length ≤ e.erec + 1) {father : Str} {f : Ref}
    (hf : e.father = some father) (hp : n.peers.get father = some f)
    (hc : (n.obj f).connected = true) :
    n.countChallenger env g id = .error .valueError := by
  have hown : e.caw ≠ n.ownWireId := fun h => hlong (hcaw ▸ h ▸ own_repeats n)
  unfold countChallenger
  simp only [he, setElection_electionNeighbors, setElection_ownWireId, setElection_peers]
  rw [if_neg (by simpa using hcaw), if_neg (Nat.not_lt.2 herec), if_neg hown]
  simp only [hf, hp]
  have hl' : ∀ e', Links (n.setElection g e') := fun e' =>
    hl.of_holds rfl rfl fun r => Peer.Holds.refl _
  exact sendElection_raises env (hl' _) hc _ _ (Nat.not_le.1 (hcaw ▸ hlong))

/-- Only one peer has the id of the sender. -/
theorem neighbors_of_same {n : Node} (ht : Tables n) {rhex : Str} {r : Ref}
    (hk : n.peers.get rhex = some r) {g : Bytes}
    (hall : ∀ s ∈ n.electionNeighbors g, (n.obj s).uuidHex = (n.obj r).uuidHex) :
    (n.electionNeighbors g).length ≤ 1 := by
  have hnd : (n.electionNeighbors g).Nodup := by
    refine (Dict.values_nodup _ fun k k' s hs hs' => ?_).filter _
    rw [← member_eq, ht.member] at hs hs'
    exact (ht.key k s hs.1).symm.trans (ht.key k' s hs'.1)
  have hr : ∀ s ∈ n.electionNeighbors g, s = r := by
    intro s hs
    obtain ⟨p, hp⟩ := (Dict.mem_values _).1 (List.mem_filter.1 hs).1
    rw [← member_eq, ht.member] at hp
    have hpk : p = rhex := by
      rw [← ht.key p s hp.1, ← ht.key rhex r hk]
      exact hall s hs
    rw [hpk, hk] at hp
    exact (Option.some.inj hp.1).symm
  match hlist : n.electionNeighbors g with
  | [] => simp
  | [s] => simp
  | s :: t :: rest =>
    rw [hlist] at hr hnd
    have : s = t := (hr s (by simp)).trans (hr t (by simp)).symm
    simp [this] at hnd

/-- Both halves of `_handle_elect`. -/
def challenge (env : Env) (n : Node) (r : Ref) (g : Bytes) (id : Str) : Except PyError Node := do
  let n ← n.adoptChallenger env r g id
  n.countChallenger env g id

theorem filter_same_eq_nil {n : Node} {r : Ref} {refs : List Ref}
    (hall : ∀ s ∈ refs, (n.obj s).uuidHex = (n.obj r).uuidHex) :
    refs.filter (fun s => (n.obj s).uuidHex ≠ (n.obj r).uuidHex) = [] :=
  List.filter_eq_nil_iff.2 fun s hs => by simpa using hall s hs

theorem challenge_returns (env : Env) {n : Node} (ht : Tables n) {rhex : Str} {r : Ref}
    (hk : n.peers.get rhex = some r) {g : Bytes} (hg : g.length ≤ maxStringBytes) {id : Str}
    (h : n.WithstandsElect r g id) : ∃ n', n.challenge env r g id = .ok n' := by
  classical
  unfold challenge
  rw [adoptChallenger_eq]
  rcases h with hrep | ⟨hadopt, hc, hall⟩ | ⟨hadopt, hcount⟩
  · split
    · obtain ⟨n1, h1⟩ := sendElections_returns env Cmd.elect
        (n.setElection g (some (newElection id (some (n.obj r).uuidHex) env.now)))
        ((n.electionNeighbors g).filter fun s => (n.obj s).uuidHex ≠ (n.obj r).uuidHex) hg hrep
      rw [h1]
      exact countChallenger_returns env n1 hg (Or.inl hrep)
    · exact countChallenger_returns env n hg (Or.inl hrep)
  · rw [if_pos hadopt, filter_same_eq_nil hall]
    refine countChallenger_returns env _ hg (Or.inr fun e he _ _ father f hf hp => ?_)
    rw [setElection, group_setGroup] at he
    cases he
    cases hf
    rw [ht.key rhex r hk] at hp
    change n.peers.get rhex = some f at hp
    rw [hk] at hp
    cases hp
    exact hc
  · rw [if_neg hadopt]
    exact countChallenger_returns env n hg (Or.inr hcount)

theorem challenge_raises (env : Env) {n : Node} (ht : Tables n) (hl : Links n) {rhex : Str} {r : Ref}
    (hk : n.peers.get rhex = some r) {g : Bytes} {id : Str} (h : ¬ n.WithstandsElect r g id) :
    n.challenge env r g id = .error .valueError := by
  classical
  simp only [WithstandsElect, not_or] at h
  obtain ⟨hlong, hadopted, hcounted⟩ := h
  unfold challenge
  rw [adoptChallenger_eq]
  set n1 := n.setElection g (some (newElection id (some (n.obj r).uuidHex) env.now)) with hn1
  have hl1 : Links n1 := hl.of_holds rfl rfl fun r => Peer.Holds.refl _
  by_cases hadopt : n.Adopts g id
  · rw [if_pos hadopt]
    by_cases hall : ∀ s ∈ n.electionNeighbors g, (n.obj s).uuidHex = (n.obj r).uuidHex
    · -- nobody but the sender is left to hear of it
      have hc : (n.obj r).connected = true := by
        by_contra hc
        exact hadopted ⟨hadopt, by simpa using hc, hall⟩
      rw [filter_same_eq_nil hall]
      refine countChallenger_raises env hl1 hlong (e := newElection id (some (n.obj r).uuidHex) env.now)
        ?_ rfl ?_ rfl ?_ hc
      · rw [hn1, setElection, group_setGroup]
      · rw [hn1, setElection_electionNeighbors]
        exact le_trans (neighbors_of_same ht hk hall) (by simp [newElection])
      · rw [ht.key rhex r hk]
        exact hk
    · push Not at hall
      obtain ⟨s, hs, hne⟩ := hall
      have hmem : s ∈ (n.electionNeighbors g).filter
          fun s => (n.obj s).uuidHex ≠ (n.obj r).uuidHex :=
        List.mem_filter.2 ⟨hs, by simpa using hne⟩
      rw [sendElections_raises env hl1 Cmd.elect g (List.ne_nil_of_mem hmem) (fun t ht =>
        electionNeighbors_connected (n := n) (List.mem_filter.1 ht).1) (Nat.not_le.1 hlong)]
      rfl
  · rw [if_neg hadopt]
    have hcounted' := not_and.1 hcounted hadopt
    push Not at hcounted'
    obtain ⟨e, he, hcaw, herec, father, f, hf, hp, hc⟩ := hcounted'
    exact countChallenger_raises env hl hlong he hcaw herec hf hp (by simpa using hc)

theorem lead_returns (env : Env) (n : Node) {g : Bytes} (hg : g.length ≤ maxStringBytes) {id : Str}
    {e : Election} (he : (n.group g).election = some e) (h : n.WithstandsLeader g id) :
    ∃ n', n.forwardLeader env g e.lrec id = .ok n' := by
  unfold forwardLeader
  split
  · rename_i hfirst
    rcases h with hrep | hnone
    · exact sendElections_returns env _ _ _ hg hrep
    · rw [hnone e he hfirst.2]
      exact ⟨n, rfl⟩
  · exact ⟨n, rfl⟩

theorem lead_raises (env : Env) {n : Node} (hl : Links n) {g : Bytes} {id : Str} {e : Election}
    (he : (n.group g).election = some e) (h : ¬ n.WithstandsLeader g id) :
    n.forwardLeader env g e.lrec id = .error .valueError := by
  simp only [WithstandsLeader, not_or] at h
  obtain ⟨hlong, hrest⟩ := h
  push Not at hrest
  obtain ⟨e', he', hlrec, hne⟩ := hrest
  rw [he] at he'
  cases he'
  unfold forwardLeader
  rw [if_pos ⟨fun e => hlong (e ▸ own_repeats n), hlrec⟩]
  exact sendElections_raises env hl _ _ hne (fun r hr => electionNeighbors_connected hr)
    (Nat.not_le.1 hlong)

/-! ## HELLO -/

/-- When `Peer.connect` gives a socket. -/
theorem connect_ok_iff (env : Env) {n : Node} {r : Ref} (hc : (n.obj r).connected = false)
    (serverKey publicKey secretKey : Option Bytes) :
    (n.connect env r serverKey publicKey secretKey).1 = true ↔ env.connect n.sockets = true ∧
      (serverKey = none ∨ ∃ key pub secret,
        (serverKey, publicKey, secretKey) = (some key, some pub, some secret)) := by
  unfold connect
  rw [if_neg (by simp [hc])]
  cases henv : env.connect n.sockets <;> cases serverKey <;> cases publicKey <;> cases secretKey <;>
    simp [henv]

theorem openPeer_isSome (env : Env) (n : Node) (uuidHex addr : Str) (port : Int)
    (rhex : Option Str) {serverKey publicKey secretKey : Option Bytes}
    (hargs : n.curveClientArgs addr port rhex = (serverKey, publicKey, secretKey)) :
    (n.openPeer env uuidHex addr port rhex).1.isSome = true ↔
      ¬ (n.cfg.curveSecret.isSome = true ∧ serverKey = none) ∧
      ((n.alloc (Peer.new uuidHex addr port)).connect env n.nextRef
        serverKey publicKey secretKey).1 = true := by
  unfold openPeer
  rw [hargs]
  simp only []
  split
  · rename_i h; simp [h]
  · rename_i h
    generalize (n.alloc (Peer.new uuidHex addr port)).connect env n.nextRef serverKey publicKey
      secretKey = res
    obtain ⟨ok, m⟩ := res
    cases ok <;> simp [h]

/-- A dial succeeds exactly when `CanDial` says so. -/
theorem openPeer_canDial (env : Env) (n : Node) (rhex addr : Str) (port : Int) :
    (n.openPeer env rhex addr port (some rhex)).1.isSome = true ↔ n.CanDial env rhex addr port := by
  obtain ⟨⟨sk, pk, ck⟩, hargs⟩ : ∃ args, n.curveClientArgs addr port (some rhex) = args := ⟨_, rfl⟩
  have hobj : ((n.alloc (Peer.new rhex addr port)).obj n.nextRef).connected = false := by
    simp [alloc, Peer.new]
  rw [openPeer_isSome env n rhex addr port (some rhex) hargs, connect_ok_iff env hobj]
  unfold CanDial
  rw [hargs]
  show _ ∧ (env.connect n.sockets = true ∧ _) ↔ _
  cases hs : n.cfg.curveSecret with
  | none =>
    have hnone : (sk, pk, ck) = (none, none, none) := by rw [← hargs]; simp [curveClientArgs, hs]
    cases hnone
    simp
  | some secret =>
    cases sk with
    | none => simp
    | some key => simp

theorem publicEndpointFor_congr (env : Env) {n n' : Node} (h : n'.cfg = n.cfg) (addr : Str) :
    n'.publicEndpointFor env addr = n.publicEndpointFor env addr := by
  unfold publicEndpointFor ownAddressFor resolveInterfaceIp
  rw [h]

theorem CanGreet.congr (env : Env) {n n' : Node} (hcfg : n'.cfg = n.cfg)
    (ho : n'.ownGroups = n.ownGroups) (hh : n'.headers = n.headers) (addr : Str) :
    n'.CanGreet env addr ↔ n.CanGreet env addr := by
  unfold CanGreet
  rw [publicEndpointFor_congr env hcfg, ho, hh]

/-- The only error of the endpoint probe is that no socket can be opened. -/
theorem publicEndpointFor_error {env : Env} {n : Node} {addr : Str} {e : PyError}
    (h : n.publicEndpointFor env addr = .error e) : e = .osError := by
  have hip : ∀ e, n.resolveInterfaceIp env = .error e → e = .osError := by
    intro e he
    unfold resolveInterfaceIp at he
    split at he
    · cases he
    · split at he
      · cases he
      · split at he
        · cases he
        · split at he
          · cases he; rfl
          · split at he <;> cases he
  have hown : ∀ addr e, n.ownAddressFor env addr = .error e → e = .osError := by
    intro addr e he
    unfold ownAddressFor at he
    rcases bind_eq_error_iff.1 he with he | ⟨ip, -, he⟩
    · exact hip e he
    · simp only [] at he
      split at he
      · cases he
      · split at he <;> cases he
        rfl
  have hprobe : ∀ e, (do
      let own ← n.ownAddressFor env (stripBrackets addr)
      return encodeStr (tcpAddress own n.cfg.inboxPort) : Except PyError Bytes) = .error e →
      e = .osError := by
    intro e he
    rcases bind_eq_error_iff.1 he with he | ⟨own, -, he⟩
    · exact hown _ e he
    · cases he
  unfold publicEndpointFor at h
  simp only [] at h
  split at h
  · split at h
    · exact hprobe e h
    · cases h
  · exact hprobe e h

/-- A HELLO that can be encoded. -/
theorem helloFrame_returns {env : Env} {n : Node} {r : Ref} (hb : Books n)
    (h : n.CanGreet env (n.obj r).addr) {seq : Nat} (hseq : seq < 65536) :
    ∃ endpoint, n.publicEndpointFor env (n.obj r).addr = .ok endpoint ∧
      Codec.HelloFits ⟨endpoint, n.ownGroups, n.status, n.cfg.name.raw, n.headers⟩ ∧
      n.helloFrame env r seq =
        .ok (Codec.helloBytes seq ⟨endpoint, n.ownGroups, n.status, n.cfg.name.raw, n.headers⟩) := by
  obtain ⟨⟨endpoint, hep, hlen⟩, hgroups, hheaders⟩ := h
  have hshort : ∀ {b : Bytes}, b.length ≤ maxStringBytes → b.length < 4294967296 := fun hb =>
    lt_of_le_of_lt hb (by decide)
  have hfits : Codec.HelloFits ⟨endpoint, n.ownGroups, n.status, n.cfg.name.raw, n.headers⟩ :=
    ⟨Nat.lt_succ_of_le hlen, hgroups, fun g hg => hshort (hb.own g hg), hb.status,
      Nat.lt_succ_of_le n.cfg.name.le, hheaders,
      fun e he => ⟨Nat.lt_succ_of_le (hb.header e he).1, hshort (hb.header e he).2⟩⟩
  refine ⟨endpoint, hep, hfits, ?_⟩
  rw [helloFrame, hep]
  exact Codec.encodeHello_ok hseq hfits

/-- A HELLO that cannot be encoded raises, but never a collision. -/
theorem helloFrame_raises {env : Env} {n : Node} {r : Ref} (hb : Books n)
    (h : ¬ n.CanGreet env (n.obj r).addr) :
    ∃ e : PyError, ¬ e.IsCollision ∧ ∀ seq, seq < 65536 → n.helloFrame env r seq = .error e := by
  have hpackI : ∀ {m : Nat}, ¬ m < 4294967296 → packI m = .error .structError := fun hm => by
    simp [packI, hm]
  unfold helloFrame
  cases hep : n.publicEndpointFor env (n.obj r).addr with
  | error e => exact ⟨e, by rw [publicEndpointFor_error hep]; exact id, fun seq _ => rfl⟩
  | ok endpoint =>
    by_cases hlen : endpoint.length ≤ maxStringBytes
    · refine ⟨.structError, id, fun seq hseq => ?_⟩
      have hlt : endpoint.length < 256 := Nat.lt_succ_of_le hlen
      show Codec.encodeHello _ _ _ _ _ _ = _
      by_cases hg : n.ownGroups.length < 4294967296
      · have hh : ¬ n.headers.entries.length < 4294967296 := fun hh =>
          h ⟨⟨endpoint, hep, hlen⟩, hg, hh⟩
        have hst : packB n.status = .ok [UInt8.ofNat n.status] := by simp [packB, hb.status]
        have hgs : ∀ g ∈ n.ownGroups, g.length < 4294967296 := fun g hg =>
          lt_of_le_of_lt (hb.own g hg) (by decide)
        simp only [Codec.encodeHello, Codec.header_ok hseq, bind_ok, Codec.s_ok hlt, packI_ok hg,
          Codec.foldlM_l_ok hgs, hst, Codec.s_ok (Nat.lt_succ_of_le n.cfg.name.le), hpackI hh,
          bind_error]
      · simp only [Codec.encodeHello, Codec.header_ok hseq, bind_ok, Codec.s_ok hlt, hpackI hg,
          bind_error]
    · exact ⟨.valueError, id, fun seq hseq =>
        Codec.encodeHello_error hseq (Nat.not_le.1 hlen) _ _ _ _⟩

theorem sendHello_returns {env : Env} {n : Node} {r : Ref} (hb : Books n)
    (h : n.CanGreet env (n.obj r).addr) : ∃ n', n.sendHello env r = .ok n' := by
  have henc : ∀ seq, seq < 65536 → ∃ frame, n.helloFrame env r seq = .ok frame := fun seq hseq => by
    obtain ⟨_, -, -, hf⟩ := helloFrame_returns hb h hseq
    exact ⟨_, hf⟩
  obtain ⟨res, hres⟩ := sendEncoded_returns env n r [] henc
  exact ⟨res.2, by rw [sendHello, hres]; rfl⟩

theorem sendHello_raises {env : Env} {n : Node} {r : Ref} (hb : Books n) (hl : Links n)
    (hc : (n.obj r).connected = true) (h : ¬ n.CanGreet env (n.obj r).addr) :
    ∃ e : PyError, ¬ e.IsCollision ∧ n.sendHello env r = .error e := by
  obtain ⟨e, he, henc⟩ := helloFrame_raises hb h
  exact ⟨e, he, by rw [sendHello, sendEncoded_raises env hl hc [] henc]; rfl⟩

theorem enterGroups_rest (n : Node) (r : Ref) (gs : List Bytes) :
    ∃ groups obj, gs.foldl (fun n g => n.enterGroup r g) n = { n with groups := groups, obj := obj } := by
  induction gs generalizing n with
  | nil => exact ⟨n.groups, n.obj, rfl⟩
  | cons g gs ih =>
    obtain ⟨groups, obj, h⟩ := ih (n.enterGroup r g)
    refine ⟨groups, obj, h.trans ?_⟩
    have hopen := openGroup_rest n g
    unfold enterGroup joinTable setGroup setObj
    rw [hopen]

/-- The end of `_handle_hello` only depends on its reply. -/
theorem enterPeer_returns {env : Env} {n : Node} (hb : Books n) {rhex : Str} {r : Ref}
    {h : HelloFields} {epStr : Str} {helloReply : Bool} {n2 : Node}
    (hreply : (n.setObj r { (n.obj r).announce h with ready := true, endpointStr := epStr }).replyHello
      env r helloReply = .ok n2) :
    ∃ n', n.enterPeer env rhex r h epStr helloReply = .ok n' := by
  have htalk := talk_replyHello env _ r helloReply n2 hreply
  have hb2 : Books n2 := Books.of_talk htalk (Books.congr (n := n) rfl rfl rfl hb)
  unfold enterPeer
  simp only [hreply, bind_ok]
  refine startElections_returns env ?_ h.groups
  obtain ⟨groups, obj, hrest⟩ := enterGroups_rest n2 r h.groups
  have hemits : ∀ (m : Node) (e : Bytes → Event) (gs : List Bytes), (∀ g, ¬ (e g).IsEnter) →
      Books m → Books (gs.foldl (fun m g => m.emit (e g)) m) := fun m e gs he hm =>
    have hmoves : Moves anything anything m (gs.foldl (fun m g => m.emit (e g)) m) :=
      moves_emits m he gs
    hmoves.invariant Books.move hm
  refine hemits _ _ _ (fun _ h => nomatch h) (Books.congr (n := n2) ?_ ?_ ?_ hb2) <;>
    rw [hrest] <;> rfl

theorem learnHelloKeys_evasive (n : Node) (d : Dict Str Int) (rhex : Str) (h : HelloFields) :
    { n with evasiveEmitAt := d }.learnHelloKeys rhex h =
      { n.learnHelloKeys rhex h with evasiveEmitAt := d } := by
  unfold learnHelloKeys learnKey
  cases h.headers.get publicKeyHeader with
  | none =>
    simp only []
    split
    · cases curveKeyRaw n.cfg.rt (encodeStr (partition '|' (bdec h.endpoint)).2) <;> rfl
    · rfl
  | some key =>
    cases hk : curveKeyRaw n.cfg.rt key <;> simp only [hk] <;> split <;>
      first
      | rfl
      | cases curveKeyRaw n.cfg.rt (encodeStr (partition '|' (bdec h.endpoint)).2) <;> rfl

/-- A peer that was just dialled is greeted at the dialled address. -/
theorem dialPeer_some {env : Env} {n n' : Node} {rhex addr : Str} {port : Int} {r : Ref}
    (h : n.dialPeer env rhex addr port = (some r, n')) :
    n'.cfg = n.cfg ∧ n'.ownGroups = n.ownGroups ∧ n'.headers = n.headers ∧
      (n'.obj r).addr = addr ∧ (n'.obj r).connected = true := by
  unfold dialPeer at h
  cases hopen : n.openPeer env rhex addr port (some rhex) with
  | mk o m =>
    rw [hopen] at h
    cases o with
    | none => cases h
    | some s =>
      cases h
      obtain ⟨rfl, curve, rfl⟩ := openPeer_some hopen
      refine ⟨rfl, rfl, rfl, ?_, ?_⟩
      · exact congrArg Peer.addr (allocated_obj_self n _)
      · exact congrArg Peer.connected (allocated_obj_self n _)

theorem dialPeer_isSome (env : Env) (n : Node) (rhex addr : Str) (port : Int) :
    (n.dialPeer env rhex addr port).1.isSome = true ↔ n.CanDial env rhex addr port := by
  rw [← openPeer_canDial]
  unfold dialPeer
  cases n.openPeer env rhex addr port (some rhex) with
  | mk o m => cases o <;> rfl

theorem answersNew_iff {env : Env} {n : Node} {rhex : Str} {h : HelloFields} {addr : Str} {port : Int}
    (hs : splitEndpoint n.cfg.rt (endpointText h.endpoint) = .ok (addr, port)) :
    n.AnswersNew env rhex h ↔ (n.pendingMatch (dialHost addr) port rhex = none →
      CanDial env (n.learnHelloKeys rhex h) rhex (dialHost addr) port →
      CanGreet env n (dialHost addr)) := by
  unfold AnswersNew
  rw [hs]
  constructor
  · intro hall; exact hall addr port rfl
  · rintro hone addr' port' ⟨⟩; exact hone

/-- The `is_new` branch returns exactly when the answer can be given. -/
theorem helloFromNew_outcome (env : Env) {n : Node} (hl : Links n) (hb : Books n)
    {rhex : Str} (hk : n.peers.get rhex = none) (hown : rhex ≠ n.cfg.peerIdHex) (h : HelloFields) :
    (n.AnswersNew env rhex h → ∃ n', n.helloFromNew env rhex h = .ok n') ∧
    (¬ n.AnswersNew env rhex h →
      ∃ e : PyError, ¬ e.IsCollision ∧ n.helloFromNew env rhex h = .error e) := by
  obtain ⟨keys, hkeys⟩ := learnHelloKeys_rest n rhex h
  have hm0 : Moves anything anything n { n with peerServerKeys := keys } := moves_quiet rfl
  have hb0 := hm0.invariant Books.move hb
  have hl0 := hm0.invariant Links.move hl
  have hpm : ∀ addr port, { n with peerServerKeys := keys }.pendingMatch addr port rhex =
      n.pendingMatch addr port rhex := fun _ _ => rfl
  unfold helloFromNew
  cases hs : splitEndpoint n.cfg.rt (endpointText h.endpoint) with
  | error e =>
    simp only [hkeys, hs]
    refine ⟨fun _ => ⟨_, rfl⟩, fun hn => absurd (fun addr port hok => ?_) hn⟩
    rw [hs] at hok
    cases hok
  | ok res =>
    obtain ⟨addr, port⟩ := res
    rw [answersNew_iff hs]
    simp only [hkeys, hs]
    cases ha : { n with peerServerKeys := keys }.adoptPending env (dialHost addr) port rhex with
    | mk o n1 =>
      obtain ⟨hm1, -, hnone, hin⟩ := moves_adoptPending anything anything
        (n := { n with peerServerKeys := keys }) trivial hk hown ha
      cases o with
      | some r =>
        obtain ⟨k, -, hmatch⟩ := adoptPending_some ha
        have hsome : n.pendingMatch (dialHost addr) port rhex ≠ none := by
          rw [← hpm, hmatch]
          simp
        refine ⟨fun _ => ?_, fun hn => absurd (fun hmatch => absurd hmatch hsome) hn⟩
        exact enterPeer_returns (hm1.invariant Books.move hb0) rfl
      | none =>
        have hmatch : n.pendingMatch (dialHost addr) port rhex = none := (adoptPending_none ha).2
        cases hnone rfl
        simp only [hmatch, forall_const]
        rw [← dialPeer_isSome]
        cases hd : { n with peerServerKeys := keys }.dialPeer env rhex (dialHost addr) port with
        | mk o n2 =>
          obtain ⟨hm2, -, hin2⟩ := moves_dialPeer anything anything
            (n := { n with peerServerKeys := keys }) trivial hk hown hd
          cases o with
          | none => exact ⟨fun _ => ⟨_, rfl⟩, fun hn => absurd (by simp) hn⟩
          | some r =>
            obtain ⟨hcfg, ho, hh, haddr, hc⟩ := dialPeer_some hd
            have hb2 := hm2.invariant Books.move hb0
            set n3 := n2.setObj r { (n2.obj r).announce h with
              ready := true, endpointStr := endpointText h.endpoint } with hn3
            have hm3 : Moves anything anything n2 n3 :=
              (Move.hail trivial rhex r { (n2.obj r).announce h with
                ready := true, endpointStr := endpointText h.endpoint } (hin2 r rfl)
                ⟨rfl, rfl, rfl, rfl, ⟨rfl, rfl⟩, rfl⟩).moves
            have hobj3 : n3.obj r = { (n2.obj r).announce h with
              ready := true, endpointStr := endpointText h.endpoint } := setObj_obj_self n2 r _
            have haddr3 : (n3.obj r).addr = dialHost addr := by rw [hobj3]; exact haddr
            have hgreet : n3.CanGreet env (n3.obj r).addr ↔ n.CanGreet env (dialHost addr) := by
              rw [haddr3]
              exact CanGreet.congr env (n := n) hcfg ho hh (dialHost addr)
            constructor
            · intro hgo
              obtain ⟨n4, h4⟩ := sendHello_returns (hm3.invariant Books.move hb2)
                (hgreet.2 (hgo rfl))
              exact enterPeer_returns hb2 h4
            · intro hno
              have hno' : ¬ n3.CanGreet env (n3.obj r).addr := fun hg => hno fun _ => hgreet.1 hg
              obtain ⟨e, he, h4⟩ := sendHello_raises (hm3.invariant Books.move hb2)
                (hm3.invariant Links.move (hm2.invariant Links.move hl0)) (by rw [hobj3]; exact hc) hno'
              refine ⟨e, he, ?_⟩
              have h5 : n3.replyHello env r true = .error e := h4
              simp only [enterPeer]
              rw [← hn3, h5]
              rfl

/-- What raises nothing but collisions. -/
def Harmless (x : Except PyError Node) : Prop := ∀ e, x = .error e → e.IsCollision

theorem harmless_of_returns {x : Except PyError Node} (h : ∃ n', x = .ok n') : Harmless x := by
  obtain ⟨n', rfl⟩ := h
  intro e he
  cases he

/-- A program that returns under `P`, and raises something else otherwise, is harmless under `P`. -/
theorem harmless_iff {x : Except PyError Node} {P : Prop} (hgood : P → ∃ n', x = .ok n')
    (hbad : ¬ P → ∃ e : PyError, ¬ e.IsCollision ∧ x = .error e) : Harmless x ↔ P := by
  refine ⟨fun hx => ?_, fun hP => harmless_of_returns (hgood hP)⟩
  by_contra hP
  obtain ⟨e, he, hx'⟩ := hbad hP
  exact he (hx e hx')

/-- An own HELLO raises at most a collision; a foreign one raises exactly when its answer does. -/
theorem handleHello_outcome (env : Env) {n : Node} (hl : Links n) (hb : Books n) (rhex : Str)
    (h : HelloFields) :
    Harmless (n.handleHello env rhex h (n.peers.get rhex)) ↔ n.WithstandsHello env rhex h := by
  unfold handleHello WithstandsHello
  split
  · rename_i hrun
    refine ⟨fun _ h => ?_, fun _ => harmless_of_returns ⟨n, rfl⟩⟩
    simp [h] at hrun
  · rename_i hrun
    split
    · rename_i hown
      refine ⟨fun _ _ h => absurd hown h, fun _ e he => ?_⟩
      split at he <;> cases he
      trivial
    · rename_i hown
      split
      · rename_i hep
        exact ⟨fun _ _ _ h => absurd hep h, fun _ => harmless_of_returns ⟨n, rfl⟩⟩
      · rename_i hep
        have hm0 : Moves anything anything n { n with evasiveEmitAt := n.evasiveEmitAt.pop rhex } :=
          moves_quiet rfl
        have hb0 := hm0.invariant Books.move hb
        cases hk : n.peers.get rhex with
        | none =>
          have hsame : AnswersNew env { n with evasiveEmitAt := n.evasiveEmitAt.pop rhex } rhex h ↔
              n.AnswersNew env rhex h := by
            unfold AnswersNew
            rw [learnHelloKeys_evasive]
            rfl
          obtain ⟨hgood, hbad⟩ := helloFromNew_outcome env
            (n := { n with evasiveEmitAt := n.evasiveEmitAt.pop rhex })
            (hm0.invariant Links.move hl) hb0 hk hown h
          simp only [hk]
          rw [harmless_iff hgood hbad, hsame]
          simp only [Bool.not_eq_true, Bool.not_eq_false'] at hrun
          simp [hrun, hown, hep]
        | some r =>
          refine ⟨fun _ _ _ _ h => by simp at h, fun _ => harmless_of_returns ?_⟩
          simp only [hk]
          cases (n.obj r).ready with
          | true => exact ⟨_, rfl⟩
          | false => exact enterPeer_returns hb0 rfl

/-! ## Messages -/

theorem arrive_rest (env : Env) (n : Node) (rhex : Str) (r : Ref) (msg : Msg) :
    ∃ d obj, n.arrive env rhex r msg = { n with evasiveEmitAt := d, obj := obj } := by
  unfold arrive
  simp only []
  split <;>
    exact ⟨_, _, (congrArg (refreshPeer env · r) (checkSeq_rest _ r msg.cmd msg.seq)).trans rfl⟩

/-- The book-keeping does not change whether an ELECT or a LEADER is withstood. -/
theorem arrive_withstands (env : Env) (n : Node) (rhex : Str) (r : Ref) (msg : Msg) (s : Ref)
    (g : Bytes) (id : Str) :
    ((n.arrive env rhex r msg).WithstandsElect s g id ↔ n.WithstandsElect s g id) ∧
      ((n.arrive env rhex r msg).WithstandsLeader g id ↔ n.WithstandsLeader g id) := by
  have hu := arrive_congr Peer.uuidHex (fun _ _ => rfl) (fun _ _ _ _ => rfl) env n rhex r msg
  have hc := arrive_congr Peer.connected (fun _ _ => rfl) (fun _ _ _ _ => rfl) env n rhex r msg
  obtain ⟨d, obj, hrest⟩ := arrive_rest env n rhex r msg
  have hgroup : (n.arrive env rhex r msg).group g = n.group g := by rw [hrest]; rfl
  have hne : (n.arrive env rhex r msg).electionNeighbors g = n.electionNeighbors g := by
    unfold electionNeighbors
    rw [hgroup]
    exact List.filter_congr fun t _ => hc t
  refine ⟨WithstandsElect.congr (by rw [hgroup]) hne ?_ hu hc s id,
    WithstandsLeader.congr (by rw [hgroup]) hne id⟩
  rw [hrest]

theorem requireGroup_withstands (n : Node) (r : Ref) (g : Bytes) (id : Str) :
    ((n.requireGroup g).WithstandsElect r g id ↔ n.WithstandsElect r g id) ∧
      ((n.requireGroup g).WithstandsLeader g id ↔ n.WithstandsLeader g id) := by
  have hobj : (n.requireGroup g).obj = n.obj := by rw [requireGroup_rest]
  have he : ((n.requireGroup g).group g).election = (n.group g).election := by rw [requireGroup_group]
  have hne := requireGroup_electionNeighbors n g
  refine ⟨WithstandsElect.congr he hne ?_ (fun r => by rw [hobj]) (fun r => by rw [hobj]) r id,
    WithstandsLeader.congr he hne id⟩
  rw [requireGroup_rest]

theorem moves_requireGroup (n : Node) (g : Bytes) : Moves anything anything n (n.requireGroup g) :=
  (Move.talk (fun _ => trivial) (talk_requireGroup True anything n g)).moves

theorem handleElect_outcome (env : Env) {n : Node} (ht : Tables n) (hl : Links n) {rhex : Str}
    {r : Ref} (hk : n.peers.get rhex = some r) {g : Bytes} (hg : g.length < 256) (id : Bytes) :
    Harmless (n.handleElect env r g id) ↔ n.WithstandsElect r g (n.wireId (bdec id)) := by
  have hm := moves_requireGroup n g
  have hwire : (n.requireGroup g).wireId (bdec id) = n.wireId (bdec id) := by
    rw [requireGroup_rest]; rfl
  have hk' : (n.requireGroup g).peers.get rhex = some r := by rw [requireGroup_rest]; exact hk
  rw [← (requireGroup_withstands n r g _).1]
  show Harmless ((n.requireGroup g).challenge env r g ((n.requireGroup g).wireId (bdec id))) ↔ _
  rw [hwire]
  refine harmless_iff (challenge_returns env (hm.invariant Tables.move ht) hk' (Nat.le_of_lt_succ hg))
    fun h => ⟨.valueError, fun h => h, ?_⟩
  exact challenge_raises env (hm.invariant Tables.move ht) (hm.invariant Links.move hl) hk' h

theorem handleLeader_outcome (env : Env) {n : Node} (hl : Links n) {g : Bytes} (hg : g.length < 256)
    (id : Bytes) :
    Harmless (n.handleLeader env g id) ↔ n.WithstandsLeader g (n.wireId (bdec id)) := by
  have hm := moves_requireGroup n g
  have hwire : (n.requireGroup g).wireId (bdec id) = n.wireId (bdec id) := by
    rw [requireGroup_rest]; rfl
  rw [← (requireGroup_withstands n 0 g _).2]
  unfold handleLeader
  cases he : ((n.requireGroup g).group g).election with
  | none =>
    simp only [he]
    refine ⟨fun _ => Or.inr fun e h => ?_, fun _ => harmless_of_returns ⟨_, rfl⟩⟩
    rw [he] at h
    cases h
  | some e =>
    simp only [he, hwire]
    refine harmless_iff (fun h => ?_) fun h => ⟨.valueError, fun h => h, ?_⟩
    · obtain ⟨n', hn'⟩ := lead_returns env (n.requireGroup g) (Nat.le_of_lt_succ hg) he h
      exact ⟨_, by rw [hn']; rfl⟩
    · rw [lead_raises env (hm.invariant Links.move hl) he h]
      rfl

theorem handleJoin_returns (env : Env) {n : Node} (hb : Books n) (rhex : Str) (r : Ref) (g : Bytes) :
    ∃ n', n.handleJoin env rhex r g = .ok n' := by
  unfold handleJoin
  split
  · exact ⟨n, rfl⟩
  · have hrest := requireGroup_rest
      (n.setObj r { n.obj r with groups := addGroup (n.obj r).groups g }) g
    refine startElection_returns env (Books.congr (n := n) ?_ ?_ ?_ hb) g <;>
    · simp only [joinTable, setGroup, emit]
      rw [hrest]
      rfl

theorem handleLeave_returns (env : Env) {n : Node} (hb : Books n) (rhex : Str) (r : Ref) (g : Bytes) :
    ∃ n', n.handleLeave env rhex r g = .ok n' := by
  unfold handleLeave
  split
  · exact ⟨n, rfl⟩
  · have hrest := leaveTable_rest
      (n.setObj r { n.obj r with groups := discardGroup (n.obj r).groups g }) g r
    refine restartElectionIfNeeded_returns env (Books.congr (n := n) ?_ ?_ ?_ hb) g <;>
    · simp only [emit]
      rw [hrest]
      rfl

/-- A message of a ready peer raises only where an identity cannot be repeated. -/
theorem dispatch_outcome (env : Env) {n : Node} (ht : Tables n) (hl : Links n) (hb : Books n)
    {rhex : Str} {r : Ref} (hk : n.peers.get rhex = some r) {msg : Msg}
    (hf : Codec.FieldsOf msg.cmd msg.fields) (extra : List Bytes) :
    Harmless (n.dispatch env rhex r msg extra) ↔ n.WithstandsFields r msg.cmd msg.fields := by
  obtain ⟨cmd, ver, seq, fields⟩ := msg
  unfold dispatch
  simp only [] at hf ⊢
  cases fields with
  | election g id =>
    obtain ⟨rfl | rfl, hg, -⟩ := hf
    · exact handleElect_outcome env ht hl hk hg id
    · exact handleLeader_outcome env hl hg id
  | none | hello h | group g =>
    refine iff_of_true (harmless_of_returns ?_) trivial
    split
    · exact ⟨_, rfl⟩
    · split
      · exact removePeer_returns env hb ht hk
      · split
        · exact sendCmd_returns env n r _ _ (by simp) (by simp)
        · split <;> first | exact ⟨_, rfl⟩ | (simp only []; split <;> exact ⟨_, rfl⟩)
  | groupStatus g st =>
    refine iff_of_true (harmless_of_returns ?_) trivial
    obtain ⟨rfl | rfl, -⟩ := hf
    · exact handleJoin_returns env hb rhex r g
    · exact handleLeave_returns env hb rhex r g

theorem handleTraffic_outcome (env : Env) {n : Node} (ht : Tables n) (hl : Links n) (hb : Books n)
    {rhex : Str} {r : Ref} (hk : n.peers.get rhex = some r) {msg : Msg}
    (hf : Codec.FieldsOf msg.cmd msg.fields) (extra : List Bytes) :
    Harmless (n.handleTraffic env rhex r msg extra) ↔ n.WithstandsFields r msg.cmd msg.fields := by
  obtain ⟨hm, hp⟩ := moves_arrive anything anything env n rhex r msg
  have hwire : ∀ s, (n.arrive env rhex r msg).wireId s = n.wireId s := by
    obtain ⟨d, obj, hrest⟩ := arrive_rest env n rhex r msg
    intro s
    rw [hrest]
    rfl
  have hout := dispatch_outcome env (hm.invariant Tables.move ht) (hm.invariant Links.move hl)
    (hm.invariant Books.move hb) (by rw [hp]; exact hk) hf extra
  refine Iff.trans hout ?_
  cases msg.fields with
  | election g id =>
    unfold WithstandsFields
    simp only [hwire, (arrive_withstands env n rhex r msg r g _).1,
      (arrive_withstands env n rhex r msg r g _).2]
  | _ => exact Iff.rfl

/-- A decoded message raises nothing but collisions exactly when it can be handled. -/
theorem handlePeerMsg_decoded (env : Env) {n : Node} (ht : Tables n) (hl : Links n) (hb : Books n)
    {routingId data uuid : Bytes} {extra : List Bytes} {msg : Msg}
    (hr : routingUuid routingId = some uuid) (hd : Codec.decode data = .ok (some msg)) :
    Harmless (n.handlePeerMsg env (routingId :: data :: extra)) ↔
      n.WithstandsMsg env (hex uuid) msg := by
  have hf := (Codec.decode_fields hd).2
  obtain ⟨cmd, ver, seq, fields⟩ := msg
  unfold handlePeerMsg WithstandsMsg
  simp only [hr, hd, bind_ok]
  cases fields with
  | hello h =>
    simp only []
    cases hk : n.peers.get (hex uuid) with
    | none =>
      have hout := handleHello_outcome env hl hb (hex uuid) h
      rw [hk] at hout
      exact hout
    | some r =>
      have hm0 : Moves anything anything n (n.setObj r { n.obj r with wantSeq := 1 }) :=
        moves_wantSeq n r 1
      have hout := handleHello_outcome env (hm0.invariant Links.move hl)
        (hm0.invariant Books.move hb) (hex uuid) h
      rw [show (n.setObj r { n.obj r with wantSeq := 1 }).peers = n.peers from rfl, hk] at hout
      refine hout.trans ?_
      unfold WithstandsHello
      rw [show (n.setObj r { n.obj r with wantSeq := 1 }).peers = n.peers from rfl, hk]
      simp
  | none | group g | groupStatus g st | election g id =>
    simp only []
    cases hk : n.peers.get (hex uuid) with
    | none => exact iff_of_true (harmless_of_returns ⟨n, rfl⟩) (fun r h => by cases h)
    | some r =>
      cases hready : (n.obj r).ready with
      | false =>
        simp only [hready]
        refine iff_of_true (harmless_of_returns ⟨n, rfl⟩) ?_
        rintro s ⟨⟩ hs
        rw [hready] at hs
        cases hs
      | true =>
        simp only [hready]
        refine (handleTraffic_outcome env ht hl hb hk hf extra).trans ?_
        constructor
        · rintro h s ⟨⟩ -; exact h
        · intro h; exact h r rfl hready

/-- In every reachable state a multipart message raises nothing but a uuid collision exactly when no
over-long identity has to be repeated and the answer to a HELLO can be encoded. -/
theorem Reachable.raises_only_collisions_iff {n : Node} (hn : n.Reachable) (env : Env)
    (frames : List Bytes) :
    (∀ e, n.handlePeerMsg env frames = .error e → e.IsCollision) ↔ n.Withstands env frames := by
  have hignored : ∀ {x : Except PyError Node} {P : Prop}, x = .ok n → P →
      ((∀ e, x = .error e → e.IsCollision) ↔ P) := by
    rintro x P rfl hP
    exact ⟨fun _ => hP, fun _ e he => by cases he⟩
  match frames with
  | [] => exact hignored rfl (by simp [Withstands])
  | [_] => exact hignored rfl (by simp [Withstands])
  | routingId :: data :: extra =>
    cases hr : routingUuid routingId with
    | none =>
      refine hignored (by simp [handlePeerMsg, hr]) ?_
      rintro _ _ _ uuid msg ⟨⟩ hr'
      rw [hr] at hr'
      cases hr'
    | some uuid =>
      obtain ⟨res, hd⟩ := Codec.decode_returns data
      cases res with
      | none =>
        refine hignored (by simp [handlePeerMsg, hr, hd]) ?_
        rintro _ _ _ uuid msg ⟨⟩ - hd'
        rw [hd] at hd'
        cases hd'
      | some msg =>
        refine (handlePeerMsg_decoded env hn.tables hn.links hn.books hr hd).trans ?_
        constructor
        · rintro h _ _ _ uuid' msg' ⟨⟩ hr' hd'
          rw [hr] at hr'
          rw [hd] at hd'
          cases hr'
          cases hd'
          exact h
        · intro h
          exact h routingId data extra uuid msg rfl hr hd

/-- An ELECT of the peer `00…02` whose challenger is 86 bytes that are not UTF-8. Each becomes a
replacement character of three bytes. -/
def longChallenge : List Bytes :=
  [1 :: sampleUuid, Codec.headBytes Cmd.elect 2 ++ Codec.shortBytes [0x67] ++
      Codec.shortBytes (List.replicate 86 0xFF)]

theorem longChallenge_raises :
    (sampleA.after (Env.calm 0) (.peerMsg sampleHello)).handlePeerMsg (Env.calm 0) longChallenge =
      .error .valueError :=
  eq_error_of_raised (by decide +kernel)

/-- A peer can end the run loop with a `ValueError`. -/
theorem not_raises_only_collisions :
    ¬ ∀ n : Node, n.Reachable → ∀ env frames e, n.handlePeerMsg env frames = .error e →
      e.IsCollision := by
  intro h
  exact h _ ((Reachable.init _).after _ _) _ _ _ longChallenge_raises

theorem longChallenge_not_withstood :
    ¬ (sampleA.after (Env.calm 0) (.peerMsg sampleHello)).Withstands (Env.calm 0) longChallenge := by
  intro h
  have hn := (Reachable.init sampleA.cfg).after (Env.calm 0) (.peerMsg sampleHello)
  exact (hn.raises_only_collisions_iff _ _).2 h _ longChallenge_raises

end Node

end Zre
