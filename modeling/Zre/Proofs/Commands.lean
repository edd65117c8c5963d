import Zre.Api
import Zre.Proofs.Crash
import Zre.Proofs.Utf8

/-!
# Proofs: draining the API queue

A command that was queued can always be performed, except a WHISPER: its peer id is only decoded when the
command runs. So a drain returns exactly when every id is UTF-8.
-/

namespace Zre

open Fallible

/-- The text of the argument can be read: every `str`, and the `bytes` that are UTF-8. -/
def Argument.IsText : Argument → Prop
  | str _ => True
  | bytes b => ∃ s, decodeStrict b = .ok s

theorem Argument.isText_iff (a : Argument) : a.IsText ↔ ∃ s, decodeStrict a.raw = .ok s := by
  cases a with
  | str s => exact iff_of_true trivial ⟨s, decodeStrict_encodeStr s⟩
  | bytes b => exact Iff.rfl

namespace Node

/-! ## The condition -/

/-- The id of a whisper is text. -/
def Call.NamesPeer : Call → Prop
  | .whisper peerHex _ | .whispers peerHex _ => peerHex.IsText
  | _ => True

/-- The id of a queued WHISPER can be decoded. -/
def Command.NamesPeer : Command → Prop
  | .whisper peerHex _ => ∃ s, decodeStrict peerHex = .ok s
  | _ => True

/-- The command is a WHISPER to an id that is not a connected peer. -/
def Command.Misses (n : Node) : Command → Prop
  | .whisper peerHex _ => ∀ s r, decodeStrict peerHex = .ok s → n.peers.get s = some r →
      (n.obj r).connected = false
  | _ => False

/-- The commands of a queue that calls fill; CONNECT comes from elsewhere. -/
def Command.IsQueued : Command → Prop
  | .connect _ _ => False
  | _ => True

/-- The commands were performed one after the other, and no WHISPER that misses changed anything. -/
inductive Performed (env : Env) : Node → List Command → Node → Prop where
  | nil (n : Node) : Performed env n [] n
  | cons {n m n' : Node} {c : Command} {queue : List Command} (hc : n.runCommand env c = .ok m)
      (hquiet : c.Misses n → m = n) (hrest : Performed env m queue n') :
      Performed env n (c :: queue) n'

/-! ## Calls -/

theorem enqueue_namesPeer {call : Call} {c : Command} (h : call.enqueue = .ok c) :
    c.IsQueued ∧ (c.NamesPeer ↔ call.NamesPeer) := by
  cases call with
  | join group =>
    obtain ⟨g, -, h⟩ := bind_eq_ok_iff.1 h
    cases h
    exact ⟨trivial, Iff.rfl⟩
  | leave group =>
    obtain ⟨g, -, h⟩ := bind_eq_ok_iff.1 h
    cases h
    exact ⟨trivial, Iff.rfl⟩
  | shout group payload =>
    obtain ⟨g, -, h⟩ := bind_eq_ok_iff.1 h
    cases h
    exact ⟨trivial, Iff.rfl⟩
  | shouts group text =>
    obtain ⟨g, -, h⟩ := bind_eq_ok_iff.1 h
    cases h
    exact ⟨trivial, Iff.rfl⟩
  | whisper peerHex payload =>
    cases h
    exact ⟨trivial, peerHex.isText_iff.symm⟩
  | whispers peerHex text =>
    cases h
    exact ⟨trivial, peerHex.isText_iff.symm⟩

theorem enqueues_namesPeer {calls : List Call} {queue : List Command}
    (h : calls.mapM Call.enqueue = .ok queue) :
    (∀ c ∈ queue, c.IsQueued) ∧ ((∀ c ∈ queue, c.NamesPeer) ↔ ∀ call ∈ calls, call.NamesPeer) := by
  induction calls generalizing queue with
  | nil =>
    cases h
    exact ⟨by simp, by simp⟩
  | cons call calls ih =>
    rw [List.mapM_cons] at h
    obtain ⟨c, hc, h⟩ := bind_eq_ok_iff.1 h
    obtain ⟨rest, hrest, h⟩ := bind_eq_ok_iff.1 h
    cases h
    obtain ⟨hqueued, hnames⟩ := enqueue_namesPeer hc
    obtain ⟨hqueued', hnames'⟩ := ih hrest
    refine ⟨?_, ?_⟩
    · intro d hd
      rcases List.mem_cons.1 hd with rfl | hd
      · exact hqueued
      · exact hqueued' d hd
    · simp only [List.forall_mem_cons, hnames, hnames']

/-! ## Commands -/

theorem sendToPeers_returns (env : Env) (n : Node) (cmd : UInt8) {g : Bytes}
    (hg : g.length ≤ maxStringBytes) {status : Nat} (hs : status < 256) :
    ∃ n', n.sendToPeers env cmd (some g) (some status) = .ok n' := by
  refine (Yields.foldlM (I := fun _ => True) trivial fun m r _ _ => ?_).returns
  obtain ⟨n', hn'⟩ : ∃ n', m.sendCmd env r cmd (some g) (some status) [] = .ok n' :=
    sendCmd_returns env m r cmd [] (by rintro _ ⟨⟩; exact hg) (by rintro _ ⟨⟩; exact hs)
  exact ⟨n', hn', trivial⟩

theorem joinGroup_returns (env : Env) (n : Node) {g : Bytes} (hg : g.length ≤ maxStringBytes) :
    ∃ n', n.joinGroup env g = .ok n' := by
  unfold joinGroup
  split
  · exact ⟨n, rfl⟩
  · refine sendToPeers_returns env _ Cmd.join hg ?_
    rw [requireGroup_rest]
    exact Nat.mod_lt _ (by decide)

theorem leaveGroup_returns (env : Env) (n : Node) {g : Bytes} (hg : g.length ≤ maxStringBytes) :
    ∃ n', n.leaveGroup env g = .ok n' := by
  unfold leaveGroup
  split
  · exact ⟨n, rfl⟩
  · exact sendToPeers_returns env _ Cmd.leave hg (Nat.mod_lt _ (by decide))

theorem doShout_returns (env : Env) (n : Node) {g : Bytes} (hg : g.length ≤ maxStringBytes)
    (payload : Bytes) : ∃ n', n.doShout env g payload = .ok n' := by
  have henc : ∀ seq, seq < 65536 → ∃ frame, Codec.encodeSimple Cmd.shout seq (some g) none = .ok frame :=
    fun seq hseq => ⟨_, Codec.encodeSimple_ok hseq (by rintro _ ⟨⟩; exact Nat.lt_succ_of_le hg) (by simp)⟩
  unfold doShout
  split
  · refine (Yields.foldlM (I := fun _ => True) trivial fun m r _ _ => ?_).returns
    split
    · obtain ⟨res, hres⟩ := sendEncoded_returns env m r [payload] henc
      exact ⟨res.2, by rw [hres]; rfl, trivial⟩
    · exact ⟨m, rfl, trivial⟩
  · exact ⟨n, rfl⟩

/-- A queued command returns exactly when it is not a WHISPER to an id that cannot be decoded. -/
theorem runCommand_returns_iff (env : Env) (n : Node) {c : Command} (hc : c.IsQueued) :
    (∃ n', n.runCommand env c = .ok n') ↔ c.NamesPeer := by
  cases c with
  | join g => exact iff_of_true (joinGroup_returns env n g.le) trivial
  | leave g => exact iff_of_true (leaveGroup_returns env n g.le) trivial
  | shout g payload => exact iff_of_true (doShout_returns env n g.le payload) trivial
  | connect host port => exact hc.elim
  | whisper peerHex payload =>
    simp only [runCommand, doWhisper, Command.NamesPeer]
    cases hd : decodeStrict peerHex with
    | error e => simp
    | ok s =>
      refine iff_of_true ?_ ⟨s, rfl⟩
      simp only [bind_ok]
      split
      · split
        · exact sendCmd_returns env n _ Cmd.whisper [payload] (by simp) (by simp)
        · exact ⟨n, rfl⟩
      · exact ⟨n, rfl⟩

/-- A WHISPER that misses changes nothing. -/
theorem runCommand_misses (env : Env) {n : Node} {c : Command} (hmiss : c.Misses n) {m : Node}
    (h : n.runCommand env c = .ok m) : m = n := by
  cases c with
  | join g | leave g | shout g payload | connect host port => exact hmiss.elim
  | whisper peerHex payload =>
    obtain ⟨s, hs, h⟩ := bind_eq_ok_iff.1 h
    split at h
    · rename_i r hr
      rw [hmiss s r hs hr] at h
      cases h
      rfl
    · cases h
      rfl

/-! ## Drains -/

/-- A drain that returns has performed its commands. -/
theorem performed_of_drain {env : Env} {n n' : Node} {queue : List Command}
    (h : n.drain env queue = .ok n') : Performed env n queue n' := by
  induction queue generalizing n with
  | nil =>
    cases h
    exact .nil _
  | cons c queue ih =>
    obtain ⟨m, hm, hrest⟩ := bind_eq_ok_iff.1 h
    exact .cons hm (fun hmiss => runCommand_misses env hmiss hm) (ih hrest)

/-- A drain returns exactly when each of its commands does. -/
theorem drain_returns_iff (env : Env) {queue : List Command} (hq : ∀ c ∈ queue, c.IsQueued) (n : Node) :
    (∃ n', n.drain env queue = .ok n') ↔ ∀ c ∈ queue, c.NamesPeer := by
  induction queue generalizing n with
  | nil => exact iff_of_true ⟨_, rfl⟩ (by simp)
  | cons c queue ih =>
    have hc := runCommand_returns_iff env n (hq c (by simp))
    have hrest := fun m => ih (fun d hd => hq d (List.mem_cons_of_mem c hd)) m
    rw [List.forall_mem_cons, ← hc]
    constructor
    · rintro ⟨n', h⟩
      obtain ⟨m, hm, h⟩ := bind_eq_ok_iff.1 h
      exact ⟨⟨m, hm⟩, (hrest m).1 ⟨n', h⟩⟩
    · rintro ⟨⟨m, hm⟩, h⟩
      obtain ⟨n', hn'⟩ := (hrest m).2 h
      exact ⟨n', by rw [drain, hm, bind_ok, hn']⟩

/-- The calls that were accepted are performed in their order, without an exception, exactly when no
whisper names its peer by bytes that are not UTF-8. -/
theorem performs_iff (env : Env) (n : Node) {calls : List Call} {queue : List Command}
    (hq : calls.mapM Call.enqueue = .ok queue) :
    (∃ n', n.drain env queue = .ok n' ∧ Performed env n queue n') ↔ ∀ call ∈ calls, call.NamesPeer := by
  obtain ⟨hqueued, hnames⟩ := enqueues_namesPeer hq
  rw [← hnames, ← drain_returns_iff env hqueued n]
  constructor
  · rintro ⟨n', h, -⟩
    exact ⟨n', h⟩
  · rintro ⟨n', h⟩
    exact ⟨n', h, performed_of_drain h⟩

/-- A join and a whisper to somebody unknown. -/
theorem performs_sample : ∃ n', sampleA.drain (Env.calm 0) [.join ⟨[0x67], by decide⟩, .whisper [0x30] [1]] =
    .ok n' ∧ Performed (Env.calm 0) sampleA [.join ⟨[0x67], by decide⟩, .whisper [0x30] [1]] n' := by
  have hq : [Call.join (.bytes [0x67]), .whisper (.bytes [0x30]) (.bytes [1])].mapM Call.enqueue =
      .ok [.join ⟨[0x67], by decide⟩, .whisper [0x30] [1]] := rfl
  refine (performs_iff (Env.calm 0) sampleA hq).2 fun call hcall => ?_
  simp only [List.mem_cons, List.not_mem_nil, or_false] at hcall
  rcases hcall with rfl | rfl
  · trivial
  · exact ⟨['0'], rfl⟩

/-- A whisper to the byte `0xFF` is accepted, and ends the run loop. -/
theorem not_performs : ¬ ∀ n : Node, n.Reachable → ∀ (env : Env) (calls : List Call)
    (queue : List Command), calls.mapM Call.enqueue = .ok queue →
      ∃ n', n.drain env queue = .ok n' ∧ Performed env n queue n' := by
  intro h
  have hraise : sampleA.drain (Env.calm 0) [.whisper [0xFF] [1]] = .error .unicodeDecodeError := rfl
  obtain ⟨n', hok, -⟩ := h sampleA (.init sampleA.cfg) (Env.calm 0)
    [.whisper (.bytes [0xFF]) (.bytes [1])] [.whisper [0xFF] [1]] rfl
  rw [hraise] at hok
  cases hok

end Node

end Zre
