import Zre.Lib.Numbering
import Zre.Proofs.HandlerMoves

/-!
# Proofs: the two counters of a connection

The sender of a connection numbers its frames modulo 65536, the receiver counts on from the last number
that it saw, without the modulus. The receiver reports every loss; it also reports the frame with which the
sender's counter starts again.
-/

namespace Zre

namespace Peer

/-- `Peer.next_seq` -/
def nextSeq (p : Peer) : Nat × Peer :=
  let p := { p with sentSeq := (p.sentSeq + 1) % 65536 }
  (p.sentSeq, p)

/-- `Peer.check_seq`; `true` is a mismatch. -/
def checkSeq (p : Peer) (cmd : UInt8) (seq : Nat) : Bool × Peer :=
  let p := p.countSeq cmd
  (p.wantSeq ≠ seq, p)

/-- How `_handle_peer_msg` counts a frame: after a mismatch it takes the number over. -/
def countFrame (p : Peer) (cmd : UInt8) (seq : Nat) : Bool × Peer :=
  let (mismatch, p) := p.checkSeq cmd seq
  (mismatch, if mismatch then { p with wantSeq := seq } else p)

theorem countFrame_fst (p : Peer) (cmd : UInt8) (seq : ℕ) :
    (p.countFrame cmd seq).1 = true ↔ (p.countSeq cmd).wantSeq ≠ seq := by
  simp [countFrame, checkSeq]

/-- Whether the number was the expected one or not, it is the last one seen. -/
theorem countFrame_wantSeq (p : Peer) (cmd : UInt8) (seq : ℕ) :
    (p.countFrame cmd seq).2.wantSeq = seq := by
  by_cases h : (p.countSeq cmd).wantSeq = seq <;> simp [countFrame, checkSeq, h]

end Peer

namespace Node

theorem checkSeq_eq (n : Node) (r : Ref) (cmd : UInt8) (seq : ℕ) :
    n.checkSeq r cmd seq = n.setObj r ((n.obj r).countFrame cmd seq).2 := by
  unfold checkSeq Peer.countFrame Peer.checkSeq
  by_cases h : ((n.obj r).countSeq cmd).wantSeq = seq <;> simp [h, setObj]

end Node

/-- A frame on its way, and whether it arrives. -/
structure Passage where
  cmd : UInt8
  arrives : Bool

/-- The frames of a connection: the HELLO, and others. -/
structure Stream where
  /-- Whether the HELLO arrives. -/
  opening : Bool
  rest : List Passage
  rest_cmd : ∀ f ∈ rest, f.cmd ≠ Cmd.hello

/-- All frames of the stream. -/
def Stream.frames (s : Stream) : List Passage := ⟨Cmd.hello, s.opening⟩ :: s.rest

/-- The objects with which the two ends of a connection count. -/
structure Ends where
  sender : Peer
  receiver : Peer

namespace Ends

/-- One frame is sent. The result is what the receiver reports, if the frame arrives. -/
def pass (e : Ends) (f : Passage) : Option Bool × Ends :=
  let (seq, sender) := e.sender.nextSeq
  if f.arrives then
    let (mismatch, receiver) := e.receiver.countFrame f.cmd seq
    (some mismatch, ⟨sender, receiver⟩)
  else (none, ⟨sender, e.receiver⟩)

/-- The two ends after some frames. -/
def passAll (e : Ends) (fs : List Passage) : Ends := fs.foldl (fun e f => (e.pass f).2) e

/-- What is reported of each frame. -/
def reports (e : Ends) : List Passage → List (Option Bool)
  | [] => []
  | f :: fs => (e.pass f).1 :: (e.pass f).2.reports fs

/-- Two ends that have not sent or received anything. -/
def fresh (uuidHex addr : Str) (port : Int) : Ends := ⟨Peer.new uuidHex addr port, Peer.new uuidHex addr port⟩

theorem passAll_append (e : Ends) (fs fs' : List Passage) :
    e.passAll (fs ++ fs') = (e.passAll fs).passAll fs' := List.foldl_append

theorem reports_append (e : Ends) (fs fs' : List Passage) :
    e.reports (fs ++ fs') = e.reports fs ++ (e.passAll fs).reports fs' := by
  induction fs generalizing e with
  | nil => rfl
  | cons f fs ih =>
    rw [List.cons_append, reports, reports, ih, List.cons_append]
    rfl

theorem reports_length (e : Ends) (fs : List Passage) : (e.reports fs).length = fs.length := by
  induction fs generalizing e with
  | nil => rfl
  | cons f fs ih => rw [reports, List.length_cons, ih, List.length_cons]

/-- The report of the frame after `fs`. -/
theorem reports_at (e : Ends) (fs : List Passage) (f : Passage) (fs' : List Passage) :
    (e.reports (fs ++ f :: fs'))[fs.length]? = some ((e.passAll fs).pass f).1 := by
  rw [reports_append, List.getElem?_append_right (by rw [reports_length]), reports_length, Nat.sub_self]
  rfl

/-! ## What the counters say -/

/-- `i` frames were sent, and the last one that arrived is the `j`-th. -/
structure At (e : Ends) (i j : ℕ) : Prop where
  le : j ≤ i
  sent : e.sender.sentSeq = i % 65536
  seen : e.receiver.wantSeq = j % 65536

theorem fresh_at (uuidHex addr : Str) (port : Int) : (fresh uuidHex addr port).At 0 0 := ⟨le_rfl, rfl, rfl⟩

variable {e : Ends} {i j : ℕ} {f : Passage} {fs : List Passage}

theorem At.nextSeq (h : e.At i j) : e.sender.nextSeq.1 = (i + 1) % 65536 ∧
    e.sender.nextSeq.2.sentSeq = (i + 1) % 65536 := by
  have hs : (e.sender.sentSeq + 1) % 65536 = (i + 1) % 65536 := by rw [h.sent, Nat.mod_add_mod]
  exact ⟨hs, hs⟩

theorem At.lost (h : e.At i j) (hf : f.arrives = false) : (e.pass f).2.At (i + 1) j := by
  unfold pass
  simp only [hf]
  exact ⟨Nat.le_succ_of_le h.le, h.nextSeq.2, h.seen⟩

theorem At.arrived (h : e.At i j) (hf : f.arrives = true) : (e.pass f).2.At (i + 1) (i + 1) := by
  unfold pass
  simp only [hf]
  exact ⟨le_rfl, h.nextSeq.2, (Peer.countFrame_wantSeq _ _ _).trans h.nextSeq.1⟩

/-- A frame is reported exactly when frames were lost before it, or the numbers have run around. A HELLO is
the first frame. -/
theorem At.report (h : e.At i j) (hf : f.arrives = true) (hcmd : f.cmd = Cmd.hello → i = 0) :
    ∃ b, (e.pass f).1 = some b ∧ (b = true ↔ ¬ (65536 ∣ i - j ∧ ¬ 65536 ∣ j + 1)) := by
  refine ⟨_, by unfold pass; simp only [hf]; rfl, ?_⟩
  rw [Peer.countFrame_fst, h.nextSeq.1, ← Numbering.expected_iff (by decide) j (i - j),
    Nat.add_sub_cancel' h.le, not_iff_not]
  unfold Peer.countSeq
  by_cases hc : f.cmd = Cmd.hello
  · have hi := hcmd hc
    have hj : j = 0 := Nat.le_zero.1 (hi ▸ h.le)
    simp [hc, hi, hj]
  · simp [hc, h.seen]

theorem passAll_lost (h : e.At i j) (hfs : ∀ f ∈ fs, f.arrives = false) :
    (e.passAll fs).At (i + fs.length) j := by
  induction fs generalizing e i with
  | nil => exact h
  | cons f fs ih =>
    have hrest := ih (h.lost (hfs f (by simp))) fun x hx => hfs x (by simp [hx])
    rwa [Nat.add_right_comm] at hrest

theorem passAll_at (h : e.At i j) (fs : List Passage) : ∃ j', (e.passAll fs).At (i + fs.length) j' := by
  induction fs generalizing e i j with
  | nil => exact ⟨j, h⟩
  | cons f fs ih =>
    have hnext : ∃ j1, (e.pass f).2.At (i + 1) j1 := by
      cases hf : f.arrives with
      | true => exact ⟨_, h.arrived hf⟩
      | false => exact ⟨_, h.lost hf⟩
    obtain ⟨j1, h1⟩ := hnext
    obtain ⟨j', h'⟩ := ih h1
    exact ⟨j', by rwa [Nat.add_right_comm] at h'⟩

/-- The last frame that was sent has arrived, or none was sent. -/
def Fresh (fs : List Passage) : Prop := ∀ f, fs.getLast? = some f → f.arrives = true

theorem passAll_fresh (h : e.At 0 0) (hfs : Fresh fs) : (e.passAll fs).At fs.length fs.length := by
  rcases List.eq_nil_or_concat fs with rfl | ⟨fs, f, rfl⟩
  · exact h
  · rw [List.concat_eq_append] at hfs ⊢
    obtain ⟨j, hj⟩ := passAll_at h fs
    rw [passAll_append, List.length_append, Nat.zero_add] at *
    exact hj.arrived (hfs f (by simp))

end Ends

namespace Stream

variable (s : Stream)

/-- Only the first frame is a HELLO. -/
theorem cmd_at {before after : List Passage} {f : Passage} (hs : s.frames = before ++ f :: after)
    (hf : f.cmd = Cmd.hello) : before.length = 0 := by
  cases before with
  | nil => rfl
  | cons g before =>
    have hrest : s.rest = before ++ f :: after := (List.cons.inj hs).2
    exact absurd hf (s.rest_cmd f (by rw [hrest]; simp))

/-- No frame that arrives is reported. -/
def Silent (e : Ends) : Prop := ∀ b, some b ∈ e.reports s.frames → b = false

/-- The first frame after a stretch of lost ones is reported. -/
def NoticesLosses (e : Ends) : Prop :=
  ∀ before lost f after, s.frames = before ++ lost ++ f :: after → Ends.Fresh before → lost ≠ [] →
    (∀ x ∈ lost, x.arrives = false) → lost.length < 65535 → f.arrives = true →
    (e.reports s.frames)[(before ++ lost).length]? = some (some true)

theorem noticesLosses {e : Ends} (h : e.At 0 0) : s.NoticesLosses e := by
  intro before lost f after hs hbefore hne hlost hlen hf
  have hat := Ends.passAll_lost (Ends.passAll_fresh h hbefore) hlost
  rw [← Ends.passAll_append] at hat
  have hcmd : f.cmd = Cmd.hello → before.length + lost.length = 0 := fun hc => by
    rw [← List.length_append]
    exact s.cmd_at hs hc
  obtain ⟨b, hb, hiff⟩ := hat.report hf hcmd
  rw [hs, Ends.reports_at, hb, hiff.2]
  rintro ⟨hdvd, -⟩
  rw [Nat.add_sub_cancel_left] at hdvd
  have hle := Nat.le_of_dvd (List.length_pos_iff.2 hne) hdvd
  omega

/-- Without losses the receiver is silent as long as the numbers do not run around. -/
theorem silent_iff {e : Ends} (h : e.At 0 0) (hall : ∀ f ∈ s.frames, f.arrives = true) :
    s.Silent e ↔ s.frames.length ≤ 65535 := by
  have hreport : ∀ before f after, s.frames = before ++ f :: after →
      ∃ b, (e.reports s.frames)[before.length]? = some (some b) ∧ (b = true ↔ 65536 ∣ before.length + 1) := by
    intro before f after hs
    have hfresh : Ends.Fresh before := fun g hg => hall g (by
      rw [hs]
      exact List.mem_append_left _ (List.mem_of_getLast? hg))
    have hat := Ends.passAll_fresh h hfresh
    obtain ⟨b, hb, hiff⟩ := hat.report (f := f) (hall f (by rw [hs]; simp)) (s.cmd_at hs)
    refine ⟨b, by rw [hs, Ends.reports_at, hb], hiff.trans ?_⟩
    rw [Nat.sub_self]
    simp
  constructor
  · intro hsilent
    by_contra hlen
    have hlt : 65535 < s.frames.length := Nat.lt_of_not_le hlen
    obtain ⟨b, hb, hiff⟩ := hreport (s.frames.take 65535) s.frames[65535] (s.frames.drop 65536)
      (by rw [List.getElem_cons_drop, List.take_append_drop])
    rw [List.length_take, Nat.min_eq_left (Nat.le_of_lt hlt)] at hb hiff
    have hfalse := hsilent b (List.mem_of_getElem? hb)
    rw [hfalse] at hiff
    exact absurd (hiff.2 (dvd_refl _)) (by decide)
  · intro hlen b hb
    obtain ⟨m, hm⟩ := List.mem_iff_getElem?.1 hb
    have hlt : m < s.frames.length := by
      rw [← Ends.reports_length e]
      exact (List.getElem?_eq_some_iff.1 hm).1
    obtain ⟨b', hb', hiff⟩ := hreport (s.frames.take m) s.frames[m] (s.frames.drop (m + 1))
      (by rw [List.getElem_cons_drop, List.take_append_drop])
    rw [List.length_take, Nat.min_eq_left (Nat.le_of_lt hlt)] at hb' hiff
    rw [hm] at hb'
    cases hb'
    rw [← Bool.not_eq_true, hiff]
    intro hdvd
    have := Nat.le_of_dvd (Nat.succ_pos _) hdvd
    omega

/-- Sender and receiver agree: without losses nothing is reported, and every loss is. -/
def Agrees (e : Ends) : Prop :=
  ((∀ f ∈ s.frames, f.arrives = true) → s.Silent e) ∧ s.NoticesLosses e

/-- The counters of a stream agree exactly when it has less than 65536 frames, or loses some of them. -/
theorem agrees_iff (uuidHex addr : Str) (port : Int) : s.Agrees (Ends.fresh uuidHex addr port) ↔
    ((∀ f ∈ s.frames, f.arrives = true) → s.frames.length ≤ 65535) := by
  have hat := Ends.fresh_at uuidHex addr port
  constructor
  · exact fun h hall => (s.silent_iff hat hall).1 (h.1 hall)
  · exact fun h => ⟨fun hall => (s.silent_iff hat hall).2 (h hall), s.noticesLosses hat⟩

end Stream

theorem ping_ne_hello : Cmd.ping ≠ Cmd.hello := by decide

/-- A HELLO and `n` PINGs, none of which is lost. -/
def pings (n : ℕ) : Stream where
  opening := true
  rest := List.replicate n ⟨Cmd.ping, true⟩
  rest_cmd f hf := by
    rw [List.eq_of_mem_replicate hf]
    exact ping_ne_hello

theorem pings_arrive (n : ℕ) : ∀ f ∈ (pings n).frames, f.arrives = true := by
  intro f hf
  rcases List.mem_cons.1 hf with rfl | hf
  · rfl
  · rw [List.eq_of_mem_replicate hf]

theorem pings_length (n : ℕ) : (pings n).frames.length = n + 1 := congrArg Nat.succ List.length_replicate

/-- The 65536th frame is reported, and nothing was lost. -/
theorem pings_disagree :
    ¬ ∀ (s : Stream) (uuidHex addr : Str) (port : Int), s.Agrees (Ends.fresh uuidHex addr port) := by
  intro h
  have hle := ((pings 65535).agrees_iff [] [] 0).1 (h (pings 65535) [] [] 0) (pings_arrive 65535)
  rw [pings_length] at hle
  exact absurd hle (by decide)

end Zre
