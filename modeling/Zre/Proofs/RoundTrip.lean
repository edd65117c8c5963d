import Zre.Proofs.Formats

/-!
# Proofs: what is encoded is decoded

The encoders write what the frame format writes, and the decoder reads what it reads. Both directions of
the round trip and the rejection of cut frames are the laws of wire formats.
-/

namespace Zre

open Fallible

namespace Codec

/-! ## The encoders -/

/-- The encoder that belongs to a message. -/
def encodeMessage (msg : Msg) : Except PyError Bytes :=
  match msg.fields with
  | .none => encodeSimple msg.cmd msg.seq none none
  | .hello h => encodeHello msg.seq h.endpoint h.groups h.status h.name h.headers
  | .group g => encodeSimple msg.cmd msg.seq (some g) none
  | .groupStatus g status => encodeSimple msg.cmd msg.seq (some g) (some status)
  | .election g id => encodeElection msg.cmd msg.seq g id

/-- The fields are those that belong to the command. The commands without fields are WHISPER, PING,
PING_OK, GOODBYE and the unknown ones. -/
def Suits (cmd : UInt8) : Fields → Prop
  | .none => cmd ≠ Cmd.hello ∧ ¬ (cmd = Cmd.shout ∨ cmd = Cmd.join ∨ cmd = Cmd.leave) ∧
      ¬ (cmd = Cmd.elect ∨ cmd = Cmd.leader)
  | .hello _ => cmd = Cmd.hello
  | .group _ => cmd = Cmd.shout
  | .groupStatus _ _ => cmd = Cmd.join ∨ cmd = Cmd.leave
  | .election _ _ => cmd = Cmd.elect ∨ cmd = Cmd.leader

/-- The body that the encoder writes for some fields. -/
def bodyOf : Fields → Body
  | .none => .bare
  | .hello h => .hello (h.endpoint, h.groups, h.status, h.name, h.headers.entries)
  | .group g => .group g
  | .groupStatus g status => .groupStatus (g, status)
  | .election g id => .election (g, id)

theorem fields_bodyOf (f : Fields) : (bodyOf f).fields = f := by
  cases f with
  | hello h =>
    show Fields.hello ⟨h.endpoint, h.groups, h.status, h.name, _⟩ = _
    rw [Dict.foldl_set_entries]
  | none | group | groupStatus | election => rfl

theorem hello_fits {h : HelloFields} :
    hello.Fits (h.endpoint, h.groups, h.status, h.name, h.headers.entries) ↔ HelloFits h := by
  unfold hello entry
  simp only [WireFormat.seq_fits, short_fits, counted_fits, octet_fits, long_fits]
  constructor
  · rintro ⟨hep, ⟨hgc, hg⟩, hst, hnm, hhc, hh⟩
    exact ⟨hep, hgc, hg, hst, hnm, hhc, hh⟩
  · rintro ⟨hep, hgc, hg, hst, hnm, hhc, hh⟩
    exact ⟨hep, ⟨hgc, hg⟩, hst, hnm, hhc, hh⟩

theorem head_fits {cmd : UInt8} {seq : ℕ} : head.Fits (cmd, seq) ↔ seq < 65536 := by
  unfold head
  rw [WireFormat.iso_fits]
  simp only [WireFormat.seq_fits, half_fits, WireFormat.mark, WireFormat.symbol, true_and, and_true]

theorem frame_fits {cmd : UInt8} {seq : ℕ} {b : Body} :
    frame.Fits ((cmd, seq), b) ↔ seq < 65536 ∧ (body cmd).Fits b := by
  unfold frame
  rw [WireFormat.seq_fits, head_fits]

theorem frame_write (cmd : UInt8) (seq : ℕ) (b : Body) :
    frame.write ((cmd, seq), b) = headBytes cmd seq ++ (body cmd).write b := rfl

theorem body_hello : body Cmd.hello = hello.embed Body.hello Body.asHello Body.asHello_eq_some := rfl

theorem body_group : body Cmd.shout = short.embed Body.group Body.asGroup Body.asGroup_eq_some := rfl

theorem body_groupStatus {cmd : UInt8} (h : cmd = Cmd.join ∨ cmd = Cmd.leave) :
    body cmd =
      (short.seq fun _ => octet).embed Body.groupStatus Body.asGroupStatus Body.asGroupStatus_eq_some := by
  rcases h with rfl | rfl <;> rfl

theorem body_election {cmd : UInt8} (h : cmd = Cmd.elect ∨ cmd = Cmd.leader) :
    body cmd =
      (short.seq fun _ => short).embed Body.election Body.asElection Body.asElection_eq_some := by
  rcases h with rfl | rfl <;> rfl

theorem body_bare {cmd : UInt8} (h : Suits cmd .none) :
    body cmd = (WireFormat.mark []).embed (fun _ => Body.bare) Body.asBare Body.asBare_eq_some := by
  rw [body, if_neg h.1, if_neg h.2.1, if_neg h.2.2]

theorem frame_write_hello (seq : ℕ) (h : HelloFields) :
    frame.write ((Cmd.hello, seq), bodyOf (.hello h)) = helloBytes seq h := by
  rw [frame_write, body_hello]
  show headBytes _ _ ++ (hello.embed Body.hello _ _).write (Body.hello _) = _
  rw [WireFormat.embed_write]
  unfold helloBytes
  simp only [List.append_assoc]
  rfl

theorem encodeHello_eq_ok_iff {seq : ℕ} {h : HelloFields} {f : Bytes} :
    encodeHello seq h.endpoint h.groups h.status h.name h.headers = .ok f ↔
      frame.Fits ((Cmd.hello, seq), bodyOf (.hello h)) ∧
        f = frame.write ((Cmd.hello, seq), bodyOf (.hello h)) := by
  have hfits : (body Cmd.hello).Fits (bodyOf (.hello h)) ↔ HelloFits h := by
    rw [body_hello]
    exact WireFormat.embed_fits.trans hello_fits
  rw [frame_write_hello, frame_fits, hfits]
  constructor
  · intro henc
    obtain ⟨hs, hf, hbytes⟩ := encodeHello_eq_ok henc
    exact ⟨⟨hs, hf⟩, hbytes⟩
  · rintro ⟨⟨hs, hf⟩, rfl⟩
    exact encodeHello_ok hs hf

theorem encodeElection_eq_ok_iff {cmd : UInt8} (hcmd : cmd = Cmd.elect ∨ cmd = Cmd.leader) {seq : ℕ}
    {g id f : Bytes} :
    encodeElection cmd seq g id = .ok f ↔ frame.Fits ((cmd, seq), bodyOf (.election g id)) ∧
      f = frame.write ((cmd, seq), bodyOf (.election g id)) := by
  have hfits : (body cmd).Fits (bodyOf (.election g id)) ↔ g.length < 256 ∧ id.length < 256 := by
    rw [body_election hcmd]
    refine WireFormat.embed_fits.trans ?_
    rw [WireFormat.seq_fits, short_fits, short_fits]
  have hwrite : frame.write ((cmd, seq), bodyOf (.election g id)) =
      headBytes cmd seq ++ shortBytes g ++ shortBytes id := by
    rw [frame_write, body_election hcmd, List.append_assoc]
    rfl
  rw [hwrite, frame_fits, hfits]
  constructor
  · intro henc
    obtain ⟨b0, h0, henc⟩ := bind_eq_ok_iff.1 henc
    obtain ⟨b1, h1, henc⟩ := bind_eq_ok_iff.1 henc
    obtain ⟨hs, rfl⟩ := header_eq_ok h0
    obtain ⟨hg, rfl⟩ := s_eq_ok h1
    obtain ⟨hid, rfl⟩ := s_eq_ok henc
    exact ⟨⟨hs, hg, hid⟩, rfl⟩
  · rintro ⟨⟨hs, hg, hid⟩, rfl⟩
    exact encodeElection_ok hs hg hid

theorem packB_lt {n : ℕ} {b : Bytes} (h : packB n = .ok b) : n < 256 := by
  unfold packB at h
  split at h
  · assumption
  · cases h

/-- When `encode_simple` returns, and what. -/
theorem encodeSimple_eq_ok_iff {cmd : UInt8} {seq : ℕ} {group : Option Bytes} {status : Option ℕ}
    {f : Bytes} :
    encodeSimple cmd seq group status = .ok f ↔
      (seq < 65536 ∧ (∀ g, group = some g → g.length < 256) ∧ ∀ st, status = some st → st < 256) ∧
        f = headBytes cmd seq ++ simpleBytes group status := by
  constructor
  · intro henc
    have hfits : (∀ g, group = some g → g.length < 256) ∧ ∀ st, status = some st → st < 256 := by
      obtain ⟨b0, -, hrest⟩ := bind_eq_ok_iff.1 henc
      cases group with
      | none =>
        refine ⟨by simp, ?_⟩
        rintro st rfl
        obtain ⟨b1, -, hrest⟩ := bind_eq_ok_iff.1 hrest
        obtain ⟨b, hb, -⟩ := bind_eq_ok_iff.1 hrest
        exact packB_lt hb
      | some g =>
        obtain ⟨b1, h1, hrest⟩ := bind_eq_ok_iff.1 hrest
        refine ⟨by rintro g' ⟨⟩; exact (s_eq_ok h1).1, ?_⟩
        rintro st rfl
        obtain ⟨b, hb, -⟩ := bind_eq_ok_iff.1 hrest
        exact packB_lt hb
    have hs : seq < 65536 := by
      obtain ⟨b0, h0, -⟩ := bind_eq_ok_iff.1 henc
      exact (header_eq_ok h0).1
    rw [encodeSimple_ok hs hfits.1 hfits.2] at henc
    cases henc
    exact ⟨⟨hs, hfits⟩, rfl⟩
  · rintro ⟨⟨hs, hg, hst⟩, rfl⟩
    exact encodeSimple_ok hs hg hst

/-- The encoders write frames, and raise on what does not fit into one. -/
theorem encodeMessage_eq_ok_iff {cmd ver : UInt8} {seq : ℕ} {fields : Fields} (h : Suits cmd fields)
    {f : Bytes} :
    encodeMessage ⟨cmd, ver, seq, fields⟩ = .ok f ↔
      frame.Fits ((cmd, seq), bodyOf fields) ∧ f = frame.write ((cmd, seq), bodyOf fields) := by
  cases fields with
  | hello hf =>
    obtain rfl : cmd = Cmd.hello := h
    exact encodeHello_eq_ok_iff
  | election g id => exact encodeElection_eq_ok_iff h
  | none =>
    have hfits : (body cmd).Fits (bodyOf .none) := by
      rw [body_bare h]
      exact ⟨(), rfl, trivial⟩
    have hwrite : (body cmd).write (bodyOf .none) = [] := by
      rw [body_bare h]
      rfl
    rw [frame_fits, frame_write, hwrite]
    show encodeSimple cmd seq none none = .ok f ↔ _
    rw [encodeSimple_eq_ok_iff]
    simp [hfits, simpleBytes]
  | group g =>
    obtain rfl : cmd = Cmd.shout := h
    have hfits : (body Cmd.shout).Fits (bodyOf (.group g)) ↔ g.length < 256 := by
      rw [body_group]
      exact WireFormat.embed_fits.trans short_fits
    rw [frame_fits, frame_write, hfits]
    show encodeSimple Cmd.shout seq (some g) none = .ok f ↔ _
    rw [encodeSimple_eq_ok_iff]
    simp [simpleBytes, body_group, short_write, bodyOf, WireFormat.embed_write]
  | groupStatus g status =>
    have hfits : (body cmd).Fits (bodyOf (.groupStatus g status)) ↔ g.length < 256 ∧ status < 256 := by
      rw [body_groupStatus h]
      refine WireFormat.embed_fits.trans ?_
      rw [WireFormat.seq_fits, short_fits, octet_fits]
    have hwrite : (body cmd).write (bodyOf (.groupStatus g status)) =
        simpleBytes (some g) (some status) := by
      rw [body_groupStatus h]
      rfl
    rw [frame_fits, frame_write, hfits, hwrite]
    show encodeSimple cmd seq (some g) (some status) = .ok f ↔ _
    rw [encodeSimple_eq_ok_iff]
    simp

/-! ## The round trip -/

theorem decode_written {cmd : UInt8} {seq : ℕ} {b : Body} (h : frame.Fits ((cmd, seq), b)) :
    decode (frame.write ((cmd, seq), b)) = .ok (some ⟨cmd, zreVersion, seq, b.fields⟩) := by
  rw [decode_reads, frame.read_written h]
  rfl

/-- What an encoder returned is decoded to the command, the sequence number and the fields it was given,
and no part of it that was cut off is accepted. -/
theorem decode_encoded {cmd : UInt8} {seq : ℕ} (fields : Fields) {f : Bytes} (hsuits : Suits cmd fields)
    (henc : encodeMessage ⟨cmd, zreVersion, seq, fields⟩ = .ok f) :
    decode f = .ok (some ⟨cmd, zreVersion, seq, fields⟩) ∧
      ∀ cut, cut <+: f → cut ≠ f → decode cut = .ok none := by
  obtain ⟨hfits, rfl⟩ := (encodeMessage_eq_ok_iff hsuits).1 henc
  refine ⟨?_, fun cut hcut hne => ?_⟩
  · rw [decode_written hfits, fields_bodyOf]
  · rw [decode_reads, frame.read_cut hfits hcut hne]
    rfl

theorem decode_hello {seq : ℕ} {h : HelloFields} (hs : seq < 65536) (hf : HelloFits h) :
    decode (helloBytes seq h) = .ok (some ⟨Cmd.hello, zreVersion, seq, .hello h⟩) :=
  (decode_encoded (.hello h) rfl (encodeHello_ok hs hf)).1

theorem decode_groupStatus {cmd : UInt8} {seq : ℕ} {g : Bytes} {status : ℕ} (hs : seq < 65536)
    (hcmd : cmd = Cmd.join ∨ cmd = Cmd.leave) (hg : g.length < 256) (hst : status < 256) :
    decode (headBytes cmd seq ++ simpleBytes (some g) (some status)) =
      .ok (some ⟨cmd, zreVersion, seq, .groupStatus g status⟩) := by
  have henc : encodeSimple cmd seq (some g) (some status) =
      .ok (headBytes cmd seq ++ simpleBytes (some g) (some status)) := by
    refine encodeSimple_ok hs ?_ ?_
    · rintro _ ⟨⟩
      exact hg
    · rintro _ ⟨⟩
      exact hst
  exact (decode_encoded (.groupStatus g status) hcmd henc).1

/-- A command without fields is all head. -/
theorem decode_bare {cmd : UInt8} {seq : ℕ} (hs : seq < 65536) (hcmd : Suits cmd .none) :
    decode (headBytes cmd seq) = .ok (some ⟨cmd, zreVersion, seq, .none⟩) := by
  have henc : encodeSimple cmd seq none none = .ok (headBytes cmd seq) :=
    encodeSimple_eq_ok_iff.2 ⟨⟨hs, by simp, by simp⟩, by simp [simpleBytes]⟩
  exact (decode_encoded .none hcmd henc).1

/-- The frame is decoded to the message, and nothing is decoded from a part of it that was cut off. -/
def Stands (f : Bytes) (msg : Msg) : Prop :=
  decode f = .ok (some msg) ∧ ∀ cut, cut <+: f → cut ≠ f → decode cut = .ok none

/-- The round trip of every command: whenever the encoder returns, its frame stands for what it was
given. -/
theorem frames_stand {seq : ℕ} (_ : seq < 65536) :
    (∀ h f, encodeHello seq h.endpoint h.groups h.status h.name h.headers = .ok f →
      Stands f ⟨Cmd.hello, zreVersion, seq, .hello h⟩) ∧
    (∀ cmd ∈ [Cmd.whisper, Cmd.ping, Cmd.pingOk, Cmd.goodbye], ∀ f,
      encodeSimple cmd seq none none = .ok f → Stands f ⟨cmd, zreVersion, seq, .none⟩) ∧
    (∀ g f, encodeSimple Cmd.shout seq (some g) none = .ok f →
      Stands f ⟨Cmd.shout, zreVersion, seq, .group g⟩) ∧
    (∀ cmd ∈ [Cmd.join, Cmd.leave], ∀ g status f, encodeSimple cmd seq (some g) (some status) = .ok f →
      Stands f ⟨cmd, zreVersion, seq, .groupStatus g status⟩) ∧
    (∀ cmd ∈ [Cmd.elect, Cmd.leader], ∀ g id f, encodeElection cmd seq g id = .ok f →
      Stands f ⟨cmd, zreVersion, seq, .election g id⟩) := by
  refine ⟨fun h f => ?_, fun cmd hcmd f => ?_, fun g f => ?_, fun cmd hcmd g status f => ?_,
    fun cmd hcmd g id f => ?_⟩
  · exact decode_encoded (.hello h) rfl
  · have hsuits : Suits cmd .none := by
      simp only [List.mem_cons, List.not_mem_nil, or_false] at hcmd
      rcases hcmd with rfl | rfl | rfl | rfl <;> exact ⟨by decide, by decide, by decide⟩
    exact decode_encoded .none hsuits
  · exact decode_encoded (.group g) rfl
  · have hsuits : cmd = Cmd.join ∨ cmd = Cmd.leave := by simpa using hcmd
    exact decode_encoded (.groupStatus g status) hsuits
  · have hsuits : cmd = Cmd.elect ∨ cmd = Cmd.leader := by simpa using hcmd
    exact decode_encoded (.election g id) hsuits

/-- A greeting with two groups and a header. -/
def sampleGreeting : HelloFields where
  endpoint := encodeStr "tcp://10.0.0.1:4001".toList
  groups := [[0x67], [0x68]]
  status := 2
  name := [0x41]
  headers := Dict.empty.set [0x58] [0x31, 0x32]

theorem frames_stand_greeting : encodeHello 1 sampleGreeting.endpoint [[0x67], [0x68]] 2 [0x41]
      (Dict.empty.set [0x58] [0x31, 0x32]) = .ok (helloBytes 1 sampleGreeting) ∧
    Stands (helloBytes 1 sampleGreeting) ⟨Cmd.hello, zreVersion, 1, .hello sampleGreeting⟩ := by
  have henc : encodeHello 1 sampleGreeting.endpoint sampleGreeting.groups sampleGreeting.status sampleGreeting.name
      sampleGreeting.headers = .ok (helloBytes 1 sampleGreeting) := by
    decide +kernel
  exact ⟨henc, (@frames_stand 1 (by decide)).1 sampleGreeting _ henc⟩

/-! ## The way back -/

/-- The names of the headers that a frame announces, as they stand in it. -/
def headerNames (data : Bytes) : List Bytes :=
  match frame.read data with
  | some ((_, .hello p), _) => p.2.2.2.2.map Prod.fst
  | _ => []

theorem suits_of_fits {cmd : UInt8} {b : Body} (h : (body cmd).Fits b) : Suits cmd b.fields := by
  unfold body at h
  split at h
  · rename_i hcmd
    obtain ⟨p, hp, -⟩ := h
    obtain rfl := Body.asHello_eq_some.1 hp
    exact hcmd
  split at h
  · rename_i hcmd
    split at h
    · rename_i hstatus
      obtain ⟨p, hp, -⟩ := h
      obtain rfl := Body.asGroupStatus_eq_some.1 hp
      exact hstatus
    · rename_i hstatus
      obtain ⟨g, hg, -⟩ := h
      obtain rfl := Body.asGroup_eq_some.1 hg
      exact hcmd.resolve_right hstatus
  split at h
  · rename_i hcmd
    obtain ⟨p, hp, -⟩ := h
    obtain rfl := Body.asElection_eq_some.1 hp
    exact hcmd
  · rename_i hhello hgroup helection
    obtain ⟨u, hu, -⟩ := h
    obtain rfl := Body.asBare_eq_some.1 hu
    exact ⟨hhello, hgroup, helection⟩

/-- Distinct headers are kept in their order. -/
theorem bodyOf_fields {b : Body} (h : ∀ p, b = .hello p → (p.2.2.2.2.map Prod.fst).Nodup) :
    bodyOf b.fields = b := by
  cases b with
  | hello p =>
    have hentries := Dict.entries_foldl_set (K := Bytes) (V := Bytes) Dict.empty p.2.2.2.2
      (by simpa [Dict.empty] using h p rfl)
    show Body.hello (p.1, p.2.1, p.2.2.1, p.2.2.2.1,
      (p.2.2.2.2.foldl (fun d e => d.set e.1 e.2) Dict.empty).entries) = _
    rw [hentries]
    rfl
  | bare | group | groupStatus | election => rfl

/-- An accepted frame begins with one that was written for its message. -/
theorem decode_eq_some {data : Bytes} {msg : Msg} (h : decode data = .ok (some msg)) :
    ∃ b rest, frame.read data = some (((msg.cmd, msg.seq), b), rest) ∧
      msg = ⟨msg.cmd, zreVersion, msg.seq, b.fields⟩ := by
  rw [decode_reads] at h
  obtain ⟨⟨⟨⟨cmd, seq⟩, b⟩, rest⟩, hread, rfl⟩ := Option.map_eq_some_iff.1 (Except.ok.inj h)
  exact ⟨b, rest, hread, rfl⟩

/-- The decoder reads inside the frame only: it never raises. -/
theorem decode_returns (data : Bytes) : ∃ r, decode data = .ok r := ⟨_, decode_reads data⟩

theorem fieldsOf_fits {cmd : UInt8} {b : Body} (h : (body cmd).Fits b) : FieldsOf cmd b.fields := by
  have hsuits := suits_of_fits h
  cases b with
  | bare => trivial
  | hello p =>
    obtain rfl : cmd = Cmd.hello := hsuits
    rw [body_hello] at h
    have hfits : hello.Fits p := WireFormat.embed_fits.1 h
    unfold hello at hfits
    exact ⟨rfl, short_fits.1 (WireFormat.seq_fits.1 hfits).1⟩
  | group g =>
    obtain rfl : cmd = Cmd.shout := hsuits
    rw [body_group] at h
    exact ⟨rfl, short_fits.1 (WireFormat.embed_fits.1 h)⟩
  | groupStatus p =>
    rw [body_groupStatus hsuits] at h
    have hfits : (short.seq fun _ => octet).Fits p := WireFormat.embed_fits.1 h
    exact ⟨hsuits, short_fits.1 (WireFormat.seq_fits.1 hfits).1⟩
  | election p =>
    rw [body_election hsuits] at h
    have hfits : (short.seq fun _ => short).Fits p := WireFormat.embed_fits.1 h
    rw [WireFormat.seq_fits, short_fits, short_fits] at hfits
    exact ⟨hsuits, hfits⟩

/-- The command of an accepted frame is its third byte, and the fields are those of the command. -/
theorem decode_fields {data : Bytes} {msg : Msg} (h : decode data = .ok (some msg)) :
    frameCmd data = some msg.cmd ∧ FieldsOf msg.cmd msg.fields := by
  obtain ⟨b, rest, hread, hmsg⟩ := decode_eq_some h
  obtain ⟨hfits, hdata⟩ := frame.write_read hread
  constructor
  · rw [hdata, frame_write]
    rfl
  · rw [congrArg Msg.fields hmsg]
    exact fieldsOf_fits (frame_fits.1 hfits).2

/-- An accepted frame with distinct header names begins with the frame that the encoder makes of its
message. -/
theorem encoded_prefix {data : Bytes} {msg : Msg} (h : decode data = .ok (some msg))
    (hnames : (headerNames data).Nodup) : ∃ f, encodeMessage msg = .ok f ∧ f <+: data := by
  obtain ⟨b, rest, hread, hmsg⟩ := decode_eq_some h
  have hfits := (frame.write_read hread).1
  have hb : bodyOf b.fields = b := by
    refine bodyOf_fields ?_
    rintro p rfl
    unfold headerNames at hnames
    rw [hread] at hnames
    exact hnames
  refine ⟨frame.write ((msg.cmd, msg.seq), b), ?_, frame.write_prefix hread⟩
  rw [hmsg]
  refine (encodeMessage_eq_ok_iff (suits_of_fits (frame_fits.1 hfits).2)).2 ?_
  rw [hb]
  exact ⟨hfits, rfl⟩

/-- The decoder never reads outside the frame, and what it accepts is what the encoder would have
written: two frames that are decoded to the same message begin with the same bytes. -/
theorem decode_canonical (data : Bytes) :
    (∃ res, decode data = .ok res) ∧
    (∀ msg, decode data = .ok (some msg) → (headerNames data).Nodup →
      ∃ f, encodeMessage msg = .ok f ∧ f <+: data) ∧
    ∀ data' msg, decode data = .ok (some msg) → decode data' = .ok (some msg) →
      (headerNames data).Nodup → (headerNames data').Nodup →
        ∃ f, encodeMessage msg = .ok f ∧ f <+: data ∧ f <+: data' := by
  refine ⟨decode_returns data, fun msg h hnames => encoded_prefix h hnames, ?_⟩
  intro data' msg h h' hnames hnames'
  obtain ⟨f, hf, hp⟩ := encoded_prefix h hnames
  obtain ⟨f', hf', hp'⟩ := encoded_prefix h' hnames'
  rw [hf] at hf'
  cases hf'
  exact ⟨f, hf, hp, hp'⟩

end Codec

end Zre
