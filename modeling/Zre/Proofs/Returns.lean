import Zre.Proofs.Membership

/-!
# Proofs: what does not raise

The node's own id fits a short string, so nothing that a node starts by itself raises: elections,
restarts and removals always return. What is left are the answers to a peer, which repeat data of that
peer.
-/

namespace Zre

open Fallible

/-! ## Lengths -/

/-- An ASCII character is one byte. -/
theorem utf8EncodeChar_ascii {c : Char} (h : c.toNat < 128) :
    (String.utf8EncodeChar c).length = 1 := by
  have hle : c.toNat ≤ 127 := Nat.le_of_lt_succ h
  simp [String.utf8EncodeChar, hle]

theorem encodeStr_ascii_length {s : Str} (h : ∀ c ∈ s, c.toNat < 128) :
    (encodeStr s).length = s.length := by
  induction s with
  | nil => rfl
  | cons c s ih =>
    have hc := utf8EncodeChar_ascii (h c (by simp))
    have hs := ih fun x hx => h x (by simp [hx])
    simp only [encodeStr, List.flatMap_cons, List.length_append, List.length_cons] at *
    omega

theorem hexDigit_ascii (n : Fin 16) :
    (hexDigit n).toNat < 128 ∧ (hexDigit n).toUpper.toNat < 128 := by
  revert n
  decide

theorem mem_hex {b : Bytes} {c : Char} (h : c ∈ hex b) : ∃ n : Fin 16, c = hexDigit n := by
  simp only [hex, List.mem_flatMap] at h
  obtain ⟨x, -, hx⟩ := h
  have hlt := x.toNat_lt
  rcases List.mem_cons.1 hx with rfl | hx
  · exact ⟨⟨x.toNat / 16, by omega⟩, rfl⟩
  · rw [List.mem_singleton.1 hx]
    exact ⟨⟨x.toNat % 16, by omega⟩, rfl⟩

theorem hex_ascii (b : Bytes) : ∀ c ∈ hex b, c.toNat < 128 ∧ c.toUpper.toNat < 128 := by
  intro c hc
  obtain ⟨n, rfl⟩ := mem_hex hc
  exact hexDigit_ascii n

theorem hexDigit_lower (n : Fin 16) : (hexDigit n).toUpper.toLower = hexDigit n := by
  revert n
  decide

theorem hex_lower (b : Bytes) : ∀ c ∈ hex b, c.toUpper.toLower = c := by
  intro c hc
  obtain ⟨n, rfl⟩ := mem_hex hc
  exact hexDigit_lower n

theorem hex_length (b : Bytes) : (hex b).length = 2 * b.length := by
  induction b with
  | nil => rfl
  | cons x b ih =>
    simp only [hex, List.flatMap_cons, List.length_append, List.length_cons, List.length_nil] at *
    omega

namespace Node

theorem ownWireId_eq (n : Node) : n.ownWireId = (hex n.cfg.peerId).map Char.toUpper :=
  n.cfg.rt.upper_ascii _ fun c hc => (hex_ascii n.cfg.peerId c hc).1

/-- The node's own wire id is 32 characters of ASCII. -/
theorem ownWireId_length (n : Node) : (encodeStr n.ownWireId).length = 32 := by
  have hhex := hex_ascii n.cfg.peerId
  rw [ownWireId_eq, encodeStr_ascii_length, List.length_map, hex_length, n.cfg.peerId_length]
  intro c hc
  obtain ⟨d, hd, rfl⟩ := List.mem_map.1 hc
  exact (hhex d hd).2

/-- The wire id is the id in upper case. -/
theorem lower_ownWireId (n : Node) : n.cfg.rt.lower n.ownWireId = n.cfg.peerIdHex := by
  rw [ownWireId_eq, n.cfg.rt.lower_ascii, List.map_map]
  · exact (List.map_congr_left (hex_lower n.cfg.peerId)).trans (List.map_id' _)
  · intro c hc
    obtain ⟨d, hd, rfl⟩ := List.mem_map.1 hc
    exact (hex_ascii n.cfg.peerId d hd).2

/-! ## Sending -/

/-- A send whose frame can be encoded returns. -/
theorem sendEncoded_returns (env : Env) (n : Node) (r : Ref) {encode : Nat → Except PyError Bytes}
    (more : List Bytes) (henc : ∀ seq, seq < 65536 → ∃ frame, encode seq = .ok frame) :
    ∃ res, n.sendEncoded env r encode more = .ok res := by
  unfold sendEncoded
  split
  · obtain ⟨frame, hframe⟩ := henc ((n.bumpSeq r).obj r).sentSeq
      (by rw [bumpSeq, setObj_obj_self]; exact Nat.mod_lt _ (by decide))
    simp only [hframe, bind_ok]
    split <;> exact ⟨_, rfl⟩
  · exact ⟨_, rfl⟩

/-- A send to a connected peer raises what the encoder raises. -/
theorem sendEncoded_raises (env : Env) {n : Node} (hl : Links n) {r : Ref}
    (hc : (n.obj r).connected = true) {encode : Nat → Except PyError Bytes} (more : List Bytes)
    {e : PyError} (henc : ∀ seq, seq < 65536 → encode seq = .error e) :
    n.sendEncoded env r encode more = .error e := by
  obtain ⟨d, hd⟩ := Option.isSome_iff_exists.1 ((hl.dealer r).1 hc)
  unfold sendEncoded
  simp only [hc, hd]
  rw [henc _ (by rw [bumpSeq, setObj_obj_self]; exact Nat.mod_lt _ (by decide))]
  rfl

/-- A send to a peer without a socket does nothing. -/
theorem sendEncoded_idle (env : Env) {n : Node} {r : Ref} (hc : (n.obj r).connected = false)
    (encode : Nat → Except PyError Bytes) (more : List Bytes) :
    n.sendEncoded env r encode more = .ok (false, n) := by
  unfold sendEncoded
  simp only [hc]
  rfl

theorem sendCmd_returns (env : Env) (n : Node) (r : Ref) (cmd : UInt8) {group : Option Bytes}
    {status : Option Nat} (more : List Bytes) (hg : ∀ g, group = some g → g.length ≤ maxStringBytes)
    (hs : ∀ st, status = some st → st < 256) :
    ∃ n', n.sendCmd env r cmd group status more = .ok n' := by
  have henc : ∀ seq, seq < 65536 → ∃ frame, Codec.encodeSimple cmd seq group status = .ok frame :=
    fun seq hseq => ⟨_, Codec.encodeSimple_ok hseq (fun g h => Nat.lt_succ_of_le (hg g h)) hs⟩
  obtain ⟨res, hres⟩ := sendEncoded_returns env n r more henc
  exact ⟨res.2, by rw [sendCmd, hres]; rfl⟩

theorem sendElection_returns (env : Env) (n : Node) (r : Ref) (cmd : UInt8) {g id : Bytes}
    (hg : g.length ≤ maxStringBytes) (hid : id.length ≤ maxStringBytes) :
    ∃ n', n.sendElection env r cmd g id = .ok n' := by
  have henc : ∀ seq, seq < 65536 → ∃ frame, Codec.encodeElection cmd seq g id = .ok frame :=
    fun seq hseq => ⟨_, Codec.encodeElection_ok hseq (Nat.lt_succ_of_le hg) (Nat.lt_succ_of_le hid)⟩
  obtain ⟨res, hres⟩ := sendEncoded_returns env n r [] henc
  exact ⟨res.2, by rw [sendElection, hres]; rfl⟩

/-- An identity that is too long for a short string cannot be sent to a connected peer. -/
theorem sendElection_raises (env : Env) {n : Node} (hl : Links n) {r : Ref}
    (hc : (n.obj r).connected = true) (cmd : UInt8) (g : Bytes) {id : Bytes}
    (hid : maxStringBytes < id.length) : n.sendElection env r cmd g id = .error .valueError := by
  rw [sendElection, sendEncoded_raises env hl hc [] fun seq hseq =>
    Codec.encodeElection_error hseq hid]
  rfl

theorem sendElection_idle (env : Env) {n : Node} {r : Ref} (hc : (n.obj r).connected = false)
    (cmd : UInt8) (g id : Bytes) : n.sendElection env r cmd g id = .ok n := by
  rw [sendElection, sendEncoded_idle env hc]
  rfl

theorem sendElections_returns (env : Env) (cmd : UInt8) {g id : Bytes} (n : Node) (refs : List Ref)
    (hg : g.length ≤ maxStringBytes) (hid : id.length ≤ maxStringBytes) :
    ∃ n', sendElections env cmd g id n refs = .ok n' := by
  refine (Yields.foldlM (I := fun _ => True) trivial fun m r _ _ => ?_).returns
  obtain ⟨n', hn'⟩ := sendElection_returns env m r cmd hg hid
  exact ⟨n', hn', trivial⟩

/-- The first frame with a long identity raises, if its receiver is connected. -/
theorem sendElections_raises (env : Env) {n : Node} (hl : Links n) (cmd : UInt8) (g : Bytes)
    {id : Bytes} {refs : List Ref} (hne : refs ≠ [])
    (hc : ∀ r ∈ refs, (n.obj r).connected = true) (hid : maxStringBytes < id.length) :
    sendElections env cmd g id n refs = .error .valueError := by
  obtain ⟨r, rs, rfl⟩ := List.exists_cons_of_ne_nil hne
  rw [sendElections, List.foldlM_cons, sendElection_raises env hl (hc r (by simp)) cmd g hid]
  rfl

/-! ## Elections that a node starts -/

theorem startElection_returns (env : Env) {n : Node} (hb : Books n) (g : Bytes) :
    ∃ n', n.startElection env g = .ok n' := by
  have hown : (n.requireGroup g).ownGroups = n.ownGroups :=
    (talk_requireGroup True (fun _ => True) n g).ownGroups
  unfold startElection
  simp only []
  split
  · exact ⟨_, rfl⟩
  · rename_i hg
    simp only [not_or, not_not] at hg
    have hlen := hb.own g (by rw [← hown]; exact hg.2)
    split
    · exact ⟨_, rfl⟩
    · exact sendElections_returns env _ _ _ hlen (by rw [ownWireId_length]; decide)

theorem restartElectionIfNeeded_returns (env : Env) {n : Node} (hb : Books n) (g : Bytes) :
    ∃ n', n.restartElectionIfNeeded env g = .ok n' := by
  unfold restartElectionIfNeeded
  split
  · exact ⟨_, rfl⟩
  · split
    · exact ⟨_, rfl⟩
    · split
      · exact startElection_returns env hb g
      · split
        · exact ⟨_, rfl⟩
        · split <;> exact ⟨_, rfl⟩

theorem Books.of_talk {L : Prop} {K : Handed → Prop} {n n' : Node} (h : Talk L K n n') (hb : Books n) :
    Books n' := hb.congr h.ownGroups h.headers h.status

theorem startElections_returns (env : Env) {n : Node} (hb : Books n) (gs : List Bytes) :
    ∃ n', gs.foldlM (fun n g => n.startElection env g) n = .ok n' := by
  refine (Yields.foldlM (I := Books) hb fun m g _ hm => ?_).returns
  exact Yields.of_returns (startElection_returns env hm g)
    ((talk_startElection env m g).mono fun _ h => Books.of_talk h hm)

theorem restartElections_returns (env : Env) {n : Node} (hb : Books n) (gs : List Bytes) :
    ∃ n', n.restartElections env gs = .ok n' := by
  refine (Yields.foldlM (I := Books) hb fun m g _ hm => ?_).returns
  exact Yields.of_returns (restartElectionIfNeeded_returns env hm g)
    ((talk_restartElectionIfNeeded env m g).mono fun _ h => Books.of_talk h hm)

theorem removePeer_returns (env : Env) {n : Node} (hb : Books n) (ht : Tables n) {k : Str} {r : Ref}
    (hk : n.peers.get k = some r) : ∃ n', n.removePeer env r = .ok n' := by
  rw [removePeer_eq env (ht.key k r hk)]
  have hm : Moves anything anything n (n.forgotten k r (env.order (n.obj r).groups)) :=
    moves_forgotten trivial ht hk (env.order_perm (n.obj r).groups)
  exact restartElections_returns env (hm.invariant Books.move hb) _

end Node

end Zre
