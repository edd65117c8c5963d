import Zre.Codec
import Zre.Lib.Fallible

/-!
# Proofs: the codec

When the encoders raise, what they return, and the command of an encoded frame.
-/

namespace Zre

open Fallible

/-! ## `struct` -/

theorem packH_ok {n : Nat} (h : n < 65536) :
    packH n = .ok [UInt8.ofNat (n / 256), UInt8.ofNat n] := by
  simp [packH, h]

theorem packI_ok {n : Nat} (h : n < 4294967296) :
    packI n = .ok [UInt8.ofNat (n / 16777216), UInt8.ofNat (n / 65536), UInt8.ofNat (n / 256),
      UInt8.ofNat n] := by
  simp [packI, h]

theorem unpackH_pack {n : Nat} (h : n < 65536) :
    unpackH [UInt8.ofNat (n / 256), UInt8.ofNat n] = .ok n := by
  simp only [unpackH, UInt8.toNat_ofNat', Except.ok.injEq]
  omega

theorem byteAt_returns {data : Bytes} {i : Nat} (h : i < data.length) :
    byteAt data i = .ok data[i] := by
  simp [byteAt, h]

theorem slice_length {data : Bytes} {i j : Nat} (hj : j ≤ data.length) :
    (slice data i j).length = j - i := by
  simp only [slice, List.length_take, List.length_drop]
  omega

/-- A slice out of the middle of a frame. -/
theorem slice_middle (pre mid post : Bytes) :
    slice (pre ++ mid ++ post) pre.length (pre.length + mid.length) = mid := by
  simp [slice]

namespace Codec

/-! ## When the encoders raise -/

theorem header_ok {cmd : UInt8} {seq : Nat} (h : seq < 65536) :
    header cmd seq = .ok [0xAA, 0xA1, cmd, 2, UInt8.ofNat (seq / 256), UInt8.ofNat seq] := by
  simp only [header, packH_ok h, packH_ok (show zreSignature < 65536 by decide), bind_ok]
  rfl

theorem s_ok {buf value : Bytes} (h : value.length < 256) :
    s buf value = .ok (buf ++ UInt8.ofNat value.length :: value) := by
  simp [s, h]

theorem s_error {buf value : Bytes} (h : 256 ≤ value.length) : s buf value = .error .valueError := by
  simp [s, Nat.not_lt.2 h]

/-- The four length bytes of a long string. -/
def u32 (n : Nat) : Bytes :=
  [UInt8.ofNat (n / 16777216), UInt8.ofNat (n / 65536), UInt8.ofNat (n / 256), UInt8.ofNat n]

/-- A short string as it stands in a frame. -/
def shortBytes (value : Bytes) : Bytes := UInt8.ofNat value.length :: value

/-- A long string as it stands in a frame. -/
def longBytes (value : Bytes) : Bytes := u32 value.length ++ value

/-- A header entry as it stands in a frame. -/
def entryBytes (e : Bytes × Bytes) : Bytes := shortBytes e.1 ++ longBytes e.2

/-- The first six bytes of a frame. -/
def headBytes (cmd : UInt8) (seq : Nat) : Bytes :=
  [0xAA, 0xA1, cmd, 2, UInt8.ofNat (seq / 256), UInt8.ofNat seq]

theorem l_ok {buf value : Bytes} (h : value.length < 4294967296) :
    l buf value = .ok (buf ++ longBytes value) := by
  simp [l, packI_ok h, longBytes, u32]

theorem foldlM_l_ok {groups : List Bytes} (h : ∀ g ∈ groups, g.length < 4294967296) (buf : Bytes) :
    groups.foldlM l buf = .ok (buf ++ groups.flatMap longBytes) := by
  induction groups generalizing buf with
  | nil => simp
  | cons g groups ih =>
    rw [List.foldlM_cons, l_ok (h g (by simp)), bind_ok, ih fun x hx => h x (by simp [hx])]
    simp

theorem encodeHeaders_ok {hdr : List (Bytes × Bytes)}
    (h : ∀ e ∈ hdr, e.1.length < 256 ∧ e.2.length < 4294967296) (buf : Bytes) :
    encodeHeaders buf hdr = .ok (buf ++ hdr.flatMap entryBytes) := by
  induction hdr generalizing buf with
  | nil => simp [encodeHeaders]
  | cons e hdr ih =>
    obtain ⟨key, value⟩ := e
    have he := h (key, value) (by simp)
    rw [encodeHeaders, s_ok he.1, bind_ok, l_ok he.2, bind_ok,
      ih fun x hx => h x (by simp [hx])]
    simp [entryBytes, shortBytes]

/-- The bytes of a HELLO. -/
def helloBytes (seq : Nat) (h : HelloFields) : Bytes :=
  headBytes Cmd.hello seq ++ shortBytes h.endpoint ++ u32 h.groups.length ++
    h.groups.flatMap longBytes ++ [UInt8.ofNat h.status] ++ shortBytes h.name ++
    u32 h.headers.entries.length ++ h.headers.entries.flatMap entryBytes

/-- The fields of a HELLO fit their length prefixes. -/
structure HelloFits (h : HelloFields) : Prop where
  endpoint : h.endpoint.length < 256
  groups : h.groups.length < 4294967296
  group : ∀ g ∈ h.groups, g.length < 4294967296
  status : h.status < 256
  name : h.name.length < 256
  headers : h.headers.entries.length < 4294967296
  header : ∀ e ∈ h.headers.entries, e.1.length < 256 ∧ e.2.length < 4294967296

theorem encodeHello_ok {seq : Nat} {h : HelloFields} (hs : seq < 65536) (hf : HelloFits h) :
    encodeHello seq h.endpoint h.groups h.status h.name h.headers = .ok (helloBytes seq h) := by
  have hp : packB h.status = .ok [UInt8.ofNat h.status] := by simp [packB, hf.status]
  simp only [encodeHello, header_ok hs, bind_ok, s_ok hf.endpoint, packI_ok hf.groups,
    foldlM_l_ok hf.group, hp, s_ok hf.name, packI_ok hf.headers, encodeHeaders_ok hf.header]
  simp [helloBytes, headBytes, shortBytes, u32]

theorem header_eq_ok {cmd : UInt8} {seq : Nat} {buf : Bytes} (h : header cmd seq = .ok buf) :
    seq < 65536 ∧ buf = headBytes cmd seq := by
  by_cases hs : seq < 65536
  · rw [header_ok hs] at h
    cases h
    exact ⟨hs, rfl⟩
  · simp [header, packH, zreSignature, hs] at h

theorem s_eq_ok {buf value b : Bytes} (h : s buf value = .ok b) :
    value.length < 256 ∧ b = buf ++ shortBytes value := by
  unfold s at h
  split at h
  · rename_i hlen
    cases h
    exact ⟨hlen, rfl⟩
  · cases h

theorem packI_eq_ok {n : Nat} {b : Bytes} (h : packI n = .ok b) : n < 4294967296 ∧ b = u32 n := by
  unfold packI at h
  split at h
  · rename_i hn
    cases h
    exact ⟨hn, rfl⟩
  · cases h

theorem l_eq_ok {buf value b : Bytes} (h : l buf value = .ok b) :
    value.length < 4294967296 ∧ b = buf ++ longBytes value := by
  obtain ⟨n, hn, hb⟩ := bind_eq_ok_iff.1 h
  obtain ⟨hlen, rfl⟩ := packI_eq_ok hn
  cases hb
  exact ⟨hlen, by simp [longBytes]⟩

theorem foldlM_l_eq_ok {groups : List Bytes} {buf b : Bytes} (h : groups.foldlM l buf = .ok b) :
    ∀ g ∈ groups, g.length < 4294967296 := by
  induction groups generalizing buf with
  | nil => simp
  | cons g groups ih =>
    rw [List.foldlM_cons] at h
    obtain ⟨b1, hb1, h⟩ := bind_eq_ok_iff.1 h
    intro x hx
    rcases List.mem_cons.1 hx with rfl | hx
    · exact (l_eq_ok hb1).1
    · exact ih h x hx

theorem encodeHeaders_eq_ok {hdr : List (Bytes × Bytes)} {buf b : Bytes}
    (h : encodeHeaders buf hdr = .ok b) :
    ∀ e ∈ hdr, e.1.length < 256 ∧ e.2.length < 4294967296 := by
  induction hdr generalizing buf with
  | nil => simp
  | cons e hdr ih =>
    obtain ⟨key, value⟩ := e
    rw [encodeHeaders] at h
    obtain ⟨b1, hb1, h⟩ := bind_eq_ok_iff.1 h
    obtain ⟨b2, hb2, h⟩ := bind_eq_ok_iff.1 h
    intro x hx
    rcases List.mem_cons.1 hx with rfl | hx
    · exact ⟨(s_eq_ok hb1).1, (l_eq_ok hb2).1⟩
    · exact ih h x hx

/-- A HELLO that was encoded fits its length prefixes. -/
theorem encodeHello_eq_ok {seq : Nat} {h : HelloFields} {b : Bytes}
    (he : encodeHello seq h.endpoint h.groups h.status h.name h.headers = .ok b) :
    seq < 65536 ∧ HelloFits h ∧ b = helloBytes seq h := by
  have he' := he
  obtain ⟨b0, h0, he⟩ := bind_eq_ok_iff.1 he
  obtain ⟨b1, h1, he⟩ := bind_eq_ok_iff.1 he
  obtain ⟨n1, hn1, he⟩ := bind_eq_ok_iff.1 he
  obtain ⟨b2, h2, he⟩ := bind_eq_ok_iff.1 he
  obtain ⟨st, hst, he⟩ := bind_eq_ok_iff.1 he
  obtain ⟨b3, h3, he⟩ := bind_eq_ok_iff.1 he
  obtain ⟨n2, hn2, he⟩ := bind_eq_ok_iff.1 he
  have hstatus : h.status < 256 := by
    unfold packB at hst
    split at hst
    · assumption
    · cases hst
  have hfits : HelloFits h := ⟨(s_eq_ok h1).1, (packI_eq_ok hn1).1, foldlM_l_eq_ok h2, hstatus,
    (s_eq_ok h3).1, (packI_eq_ok hn2).1, encodeHeaders_eq_ok he⟩
  have hs := (header_eq_ok h0).1
  rw [encodeHello_ok hs hfits] at he'
  exact ⟨hs, hfits, (Except.ok.inj he').symm⟩

/-- A HELLO whose endpoint is too long cannot be encoded. -/
theorem encodeHello_error {seq : Nat} {endpoint : Bytes} (hs : seq < 65536)
    (h : 256 ≤ endpoint.length) (groups : List Bytes) (status : Nat) (name : Bytes)
    (headers : Dict Bytes Bytes) :
    encodeHello seq endpoint groups status name headers = .error .valueError := by
  simp [encodeHello, header_ok hs, s_error h]

theorem encodeElection_ok {cmd : UInt8} {seq : Nat} {g id : Bytes} (hs : seq < 65536)
    (hg : g.length < 256) (hid : id.length < 256) :
    encodeElection cmd seq g id = .ok (headBytes cmd seq ++ shortBytes g ++ shortBytes id) := by
  simp [encodeElection, header_ok hs, s_ok hg, s_ok hid, headBytes, shortBytes]

/-- An election frame whose identity is too long cannot be encoded. -/
theorem encodeElection_error {cmd : UInt8} {seq : Nat} {g id : Bytes} (hs : seq < 65536)
    (hid : 256 ≤ id.length) : encodeElection cmd seq g id = .error .valueError := by
  by_cases hg : g.length < 256
  · simp [encodeElection, header_ok hs, s_ok hg, s_error hid]
  · simp [encodeElection, header_ok hs, s_error (Nat.not_lt.1 hg)]

/-- The optional fields of `encode_simple`. -/
def simpleBytes (group : Option Bytes) (status : Option Nat) : Bytes :=
  (group.elim [] shortBytes) ++ (status.elim [] fun st => [UInt8.ofNat st])

theorem encodeSimple_ok {cmd : UInt8} {seq : Nat} {group : Option Bytes} {status : Option Nat}
    (hs : seq < 65536) (hg : ∀ g, group = some g → g.length < 256)
    (hst : ∀ st, status = some st → st < 256) :
    encodeSimple cmd seq group status = .ok (headBytes cmd seq ++ simpleBytes group status) := by
  have hp : ∀ st, status = some st → packB st = .ok [UInt8.ofNat st] := by
    intro st h; simp [packB, hst st h]
  cases group with
  | none =>
    cases status with
    | none => simp [encodeSimple, header_ok hs, simpleBytes, headBytes]
    | some st => simp [encodeSimple, header_ok hs, simpleBytes, headBytes, hp st rfl]
  | some g =>
    have hg' := hg g rfl
    cases status with
    | none => simp [encodeSimple, header_ok hs, s_ok hg', simpleBytes, headBytes, shortBytes]
    | some st =>
      simp [encodeSimple, header_ok hs, s_ok hg', simpleBytes, headBytes, shortBytes, hp st rfl]

/-! ## The command byte of an encoded frame -/

/-- The command that a frame carries. -/
def frameCmd (frame : Bytes) : Option UInt8 := frame[2]?

/-- A frame under construction: the head is complete and names the command. -/
def Headed (cmd : UInt8) (buf : Bytes) : Prop := 6 ≤ buf.length ∧ frameCmd buf = some cmd

theorem header_cmd {cmd : UInt8} {seq : Nat} :
    Ensures (header cmd seq) (Headed cmd) := by
  intro buf h
  by_cases hs : seq < 65536
  · rw [header_ok hs] at h
    cases h
    simp [Headed, frameCmd]
  · simp [header, packH, hs, show zreSignature < 65536 by decide] at h

/-- Appending to a frame keeps its command. -/
theorem Headed.append {buf x : Bytes} {cmd : UInt8} (h : Headed cmd buf) :
    Headed cmd (buf ++ x) := by
  refine ⟨by have := h.1; simp; omega, ?_⟩
  rw [frameCmd, List.getElem?_append_left (by have := h.1; omega)]
  exact h.2

theorem s_cmd {buf value : Bytes} {cmd : UInt8} (h : Headed cmd buf) :
    Ensures (s buf value) (Headed cmd) := by
  intro b hb
  simp only [s] at hb
  split at hb
  · cases hb; exact h.append
  · cases hb

theorem l_cmd {buf value : Bytes} {cmd : UInt8} (h : Headed cmd buf) :
    Ensures (l buf value) (Headed cmd) := by
  intro b hb
  obtain ⟨n, -, hn⟩ := bind_eq_ok_iff.1 hb
  cases hn
  exact h.append.append

theorem encodeHeaders_cmd {hdr : List (Bytes × Bytes)} {cmd : UInt8} {buf : Bytes}
    (h : Headed cmd buf) :
    Ensures (encodeHeaders buf hdr) (Headed cmd) := by
  induction hdr generalizing buf with
  | nil => exact Ensures.ok h
  | cons e hdr ih => exact (s_cmd h).bind fun b hb => (l_cmd hb).bind fun c hc => ih hc

theorem encodeHello_cmd (seq : Nat) (endpoint : Bytes) (groups : List Bytes) (status : Nat)
    (name : Bytes) (headers : Dict Bytes Bytes) :
    Ensures (encodeHello seq endpoint groups status name headers) fun f =>
      frameCmd f = some Cmd.hello := by
  suffices h : Ensures (encodeHello seq endpoint groups status name headers) (Headed Cmd.hello) from
    h.mono fun _ hf => hf.2
  refine header_cmd.bind fun b0 h0 => (s_cmd h0).bind fun b1 h1 => ?_
  have hn : ∀ n, Ensures (packI n) fun _ => True := fun _ _ _ => trivial
  have hst : ∀ n, Ensures (packB n) fun _ => True := fun _ _ _ => trivial
  refine (hn _).bind fun n _ => ?_
  refine (Ensures.foldlM h1.append fun _ _ _ hb => l_cmd hb).bind fun b2 h2 => ?_
  refine (hst _).bind fun st _ => ?_
  refine (s_cmd h2.append).bind fun b3 h3 => (hn _).bind fun m _ => ?_
  exact encodeHeaders_cmd h3.append

theorem encodeElection_cmd (cmd : UInt8) (seq : Nat) (g id : Bytes) :
    Ensures (encodeElection cmd seq g id) fun f => frameCmd f = some cmd :=
  (header_cmd.bind fun _ h0 => (s_cmd h0).bind fun _ h1 => s_cmd h1).mono fun _ h => h.2

theorem encodeSimple_cmd (cmd : UInt8) (seq : Nat) (group : Option Bytes) (status : Option Nat) :
    Ensures (encodeSimple cmd seq group status) fun f => frameCmd f = some cmd := by
  suffices h : Ensures (encodeSimple cmd seq group status) (Headed cmd) from
    h.mono fun _ hf => hf.2
  have hst : ∀ buf st, Headed cmd buf → Ensures (do
      let b ← packB st
      return buf ++ b) (Headed cmd) := fun buf st hb =>
    Ensures.bind (P := fun _ => True) (fun _ _ => trivial) fun _ _ => Ensures.ok hb.append
  refine header_cmd.bind fun b0 h0 => ?_
  cases group with
  | none =>
    cases status with
    | none => exact Ensures.ok h0
    | some st => exact hst b0 st h0
  | some g =>
    refine (s_cmd h0).bind fun b1 h1 => ?_
    cases status with
    | none => exact Ensures.ok h1
    | some st => exact hst b1 st h1

/-- Which fields a command has. Short strings are at most 255 bytes. -/
def FieldsOf (cmd : UInt8) : Fields → Prop
  | .none => True
  | .hello h => cmd = Cmd.hello ∧ h.endpoint.length < 256
  | .group g => cmd = Cmd.shout ∧ g.length < 256
  | .groupStatus g _ => (cmd = Cmd.join ∨ cmd = Cmd.leave) ∧ g.length < 256
  | .election g id => (cmd = Cmd.elect ∨ cmd = Cmd.leader) ∧ g.length < 256 ∧ id.length < 256

end Codec

end Zre
