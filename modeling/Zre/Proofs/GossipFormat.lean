import Zre.Gossip
import Zre.Proofs.Formats

/-!
# Proofs: the format of ZGS frames

The gossip codec is followed like the codec of the frames between nodes. Its decoder computes the reader
of the format on every body but one: a PUBLISH that ends after its version byte, where it reads the length
of the key from outside the body.
-/

namespace Zre

open Fallible

namespace Zgs

/-! ## The format -/

/-- The key, the value and the ttl of a PUBLISH. -/
def asPublish : Message → Option (Bytes × Bytes × ℕ)
  | .publish key value ttl => some (key, value, ttl)
  | _ => none

theorem asPublish_eq_some {p : Bytes × Bytes × ℕ} {m : Message} :
    asPublish m = some p ↔ Message.publish p.1 p.2.1 p.2.2 = m := by
  obtain ⟨key, value, ttl⟩ := p
  cases m <;> simp [asPublish, eq_comm]

/-- The format of the fields of a PUBLISH. -/
def tuple : WireFormat UInt8 (Bytes × Bytes × ℕ) :=
  Codec.short.seq fun _ => Codec.long.seq fun _ => Codec.word

/-- What follows the head that names a command. -/
def payload (command : UInt8) : WireFormat UInt8 Message :=
  if command = 2 then tuple.embed (fun p => .publish p.1 p.2.1 p.2.2) asPublish asPublish_eq_some
  else if command = 1 then WireFormat.constant .hello
  else if command = 3 then WireFormat.constant .ping
  else if command = 4 then WireFormat.constant .pong
  else if command = 5 then WireFormat.constant .invalid
  else WireFormat.void

theorem payload_publish :
    payload 2 = tuple.embed (fun p => .publish p.1 p.2.1 p.2.2) asPublish asPublish_eq_some := rfl

theorem payload_command {command : UInt8} {m : Message} (h : (payload command).Fits m) :
    m.command = command := by
  unfold payload at h
  split_ifs at h with h2 h1 h3 h4 h5
  · obtain ⟨p, hp, -⟩ := h
    rw [← asPublish_eq_some.1 hp, h2]
    rfl
  · rw [WireFormat.constant_fits.1 h, h1]
    rfl
  · rw [WireFormat.constant_fits.1 h, h3]
    rfl
  · rw [WireFormat.constant_fits.1 h, h4]
    rfl
  · rw [WireFormat.constant_fits.1 h, h5]
    rfl
  · exact h.elim

/-- The head of a body: signature, command and version. -/
def head : WireFormat UInt8 UInt8 :=
  ((WireFormat.mark signature).seq fun _ => WireFormat.symbol.seq fun _ => WireFormat.mark [version]).iso
    (fun p => p.2.1) (fun command => ((), command, ())) fun _ _ => rfl

/-- The format of a body. -/
def body : WireFormat UInt8 Message :=
  (head.seq payload).iso Prod.snd (fun m => (m.command, m)) fun p hp => by
    rw [payload_command (WireFormat.seq_fits.1 hp).2]

/-! ## The encoder -/

/-- The checks that `zgs_encode` makes on a tuple. -/
structure Fits (key value : Bytes) : Prop where
  key_pos : 1 ≤ key.length
  key_le : key.length ≤ maxStringBytes
  value_le : value.length ≤ maxLongstrBytes

/-- The bytes of a PUBLISH. -/
def publishBytes (key value : Bytes) (ttl : Nat) : Bytes :=
  signature ++ [2, version] ++ Codec.shortBytes key ++ Codec.longBytes value ++ Codec.u32 ttl

theorem encode_publish {key value : Bytes} (h : Fits key value) {ttl : Nat} (ht : ttl < 4294967296) :
    encode (.publish key value ttl) = .ok (publishBytes key value ttl) := by
  have hv : value.length < 4294967296 := by
    have := h.value_le
    simp only [maxLongstrBytes] at this
    omega
  unfold encode
  simp only []
  rw [if_neg (by have := h.key_pos; have := h.key_le; omega), if_neg (by have := h.value_le; omega),
    packI_ok hv, bind_ok, packI_ok ht, bind_ok]
  simp [publishBytes, Codec.shortBytes, Codec.longBytes, Codec.u32, Message.command]

theorem encode_publish_error {key value : Bytes} (h : ¬ Fits key value) (ttl : Nat) :
    encode (.publish key value ttl) = .error .valueError := by
  unfold encode
  simp only []
  split
  · rfl
  · rename_i hk
    split
    · rfl
    · rename_i hv
      exact absurd ⟨by omega, by omega, by omega⟩ h

theorem body_fits_publish {key value : Bytes} {ttl : ℕ} :
    body.Fits (.publish key value ttl) ↔
      key.length < 256 ∧ value.length < 4294967296 ∧ ttl < 4294967296 := by
  have htuple : (payload 2).Fits (.publish key value ttl) ↔ tuple.Fits (key, value, ttl) := by
    rw [payload_publish]
    exact WireFormat.embed_fits (a := (key, value, ttl))
  unfold tuple at htuple
  simp only [WireFormat.seq_fits, Codec.short_fits, Codec.long_fits, Codec.word_fits] at htuple
  rw [← htuple]
  exact ⟨fun h => h.1.2, fun h => ⟨⟨⟨⟨trivial, trivial, trivial⟩, rfl⟩, h⟩, rfl⟩⟩

theorem Fits.body {key value : Bytes} (h : Fits key value) {ttl : ℕ} (ht : ttl < 4294967296) :
    body.Fits (.publish key value ttl) := by
  have hk := h.key_le
  have hv := h.value_le
  simp only [maxStringBytes, maxLongstrBytes] at hk hv
  exact body_fits_publish.2 ⟨by omega, by omega, ht⟩

theorem body_write_publish (key value : Bytes) (ttl : ℕ) :
    body.write (.publish key value ttl) = publishBytes key value ttl := by
  unfold publishBytes
  simp only [List.append_assoc]
  rfl

theorem encode_bare {m : Message} (h : ∀ key value ttl, m ≠ .publish key value ttl) :
    encode m = .ok (body.write m) ∧ body.Fits m := by
  cases m with
  | publish key value ttl => exact absurd rfl (h key value ttl)
  | hello | ping | pong | invalid => exact ⟨rfl, ⟨⟨⟨trivial, trivial, trivial⟩, rfl⟩, rfl⟩, rfl⟩

/-! ## The decoder -/

/-- A PUBLISH that ends after its version byte. -/
def publishStub : Bytes := signature ++ [2, version]

/-- A slice that is not cut off by the end of the data. -/
theorem block_reads (data : Bytes) (offset n : ℕ) :
    ((slice data offset (offset + n)).length ≠ n ∧
        (WireFormat.block n).read (data.drop offset) = none) ∨
      (slice data offset (offset + n)).length = n ∧
        (WireFormat.block n).read (data.drop offset) =
          some (slice data offset (offset + n), data.drop (offset + n)) := by
  rw [slice, Nat.add_sub_cancel_left, WireFormat.block_read, List.length_take, List.length_drop,
    List.drop_drop]
  by_cases h : n ≤ data.length - offset
  · exact Or.inr ⟨by omega, if_pos h⟩
  · exact Or.inl ⟨by omega, if_neg h⟩

/-- The fields of a PUBLISH are read as long as there is a byte for the length of the key. -/
theorem decodePublish_reads {data : Bytes} (h : 4 < data.length) :
    decodePublish data =
      .ok ((tuple.read (data.drop 4)).map fun p => .publish p.1.1 p.1.2.1 p.1.2.2) := by
  unfold decodePublish tuple Codec.short Codec.long
  simp only [WireFormat.seq_read, WireFormat.sized_read]
  obtain ⟨hlen, -⟩ | ⟨keyLen, -, hkeyLen, h1⟩ := Codec.octet_reads data 4
  · omega
  rw [h1, hkeyLen, bind_ok, Option.bind_some]
  simp only []
  obtain ⟨hkey, h2⟩ | ⟨hkey, h2⟩ := block_reads data 5 keyLen.toNat
  · rw [h2, if_pos hkey]
    rfl
  rw [h2, if_neg (not_not.2 hkey), Option.bind_some]
  simp only []
  obtain ⟨hlen, h3⟩ | ⟨valueLen, hlen, hvalueLen, h3⟩ := Codec.word_reads data (5 + keyLen.toNat)
  · rw [h3, if_pos hlen]
    rfl
  rw [h3, if_neg hlen, hvalueLen, bind_ok, Option.bind_some]
  simp only []
  obtain ⟨hvalue, h4⟩ | ⟨hvalue, h4⟩ := block_reads data (5 + keyLen.toNat + 4) valueLen
  · rw [h4, if_pos hvalue]
    rfl
  rw [h4, if_neg (not_not.2 hvalue), Option.bind_some]
  simp only []
  obtain ⟨hlen, h5⟩ | ⟨ttl, hlen, httl, h5⟩ := Codec.word_reads data (5 + keyLen.toNat + 4 + valueLen)
  · rw [h5, if_pos hlen]
    rfl
  · rw [h5, if_neg hlen, httl]
    rfl

theorem head_read (a b command ver : UInt8) (rest : Bytes) :
    head.read (a :: b :: command :: ver :: rest) =
      if [a, b] = signature then if [ver] = [version] then some (command, rest) else none else none := by
  unfold head
  rw [WireFormat.iso_read, WireFormat.seq_read]
  show Option.map _ (Option.bind (if [a, b] = signature then _ else none) _) = _
  by_cases hsig : [a, b] = signature
  · rw [if_pos hsig, if_pos hsig, Option.bind_some]
    show Option.map _ (Option.map _ (Option.map _ (if [ver] = [version] then _ else none))) = _
    by_cases hver : [ver] = [version]
    · rw [if_pos hver, if_pos hver]
      rfl
    · rw [if_neg hver, if_neg hver]
      rfl
  · rw [if_neg hsig, if_neg hsig]
    rfl

theorem body_read_short {data : Bytes} (h : data.length < 4) : body.read data = none := by
  cases hread : body.read data with
  | none => rfl
  | some p =>
    obtain ⟨m, rest⟩ := p
    have hdata : data = body.write m ++ rest := (body.write_read hread).2
    have hwrite : body.write m = signature ++ [m.command, version] ++ (payload m.command).write m := rfl
    rw [hdata, hwrite] at h
    simp [signature] at h
    omega

/-- The decoder reads every body but the stub. -/
theorem decode_reads {data : Bytes} (h : data ≠ publishStub) :
    decode data = .ok ((body.read data).map Prod.fst) := by
  by_cases hlen : data.length < 4
  · rw [body_read_short hlen]
    unfold decode
    split
    · simp only [List.length_cons] at hlen
      omega
    · rfl
  rcases data with _ | ⟨a, _ | ⟨b, _ | ⟨command, _ | ⟨ver, rest⟩⟩⟩⟩
  · exact absurd (by decide) hlen
  · exact absurd (by simp) hlen
  · exact absurd (by simp) hlen
  · exact absurd (by simp) hlen
  unfold body decode
  rw [WireFormat.iso_read, WireFormat.seq_read, head_read]
  simp only []
  by_cases hsig : [a, b] = signature
  swap
  · rw [if_pos (Or.inl hsig), if_neg hsig]
    rfl
  by_cases hver : ver = version
  swap
  · rw [if_pos (Or.inr hver), if_pos hsig, if_neg (by simpa using hver)]
    rfl
  rw [if_neg (by simp [hsig, hver]), if_pos hsig,
    if_pos (show [ver] = [version] by rw [hver]), Option.bind_some]
  simp only [payload]
  split_ifs with h2 h1 h3 h4 h5
  · have hlong : 4 < (a :: b :: command :: ver :: rest).length := by
      by_contra hshort
      have hnil : rest = [] := by simpa using hshort
      refine h ?_
      rw [hnil, h2, hver]
      show [a, b] ++ _ = _
      rw [hsig]
      rfl
    rw [decodePublish_reads hlong, WireFormat.embed_read]
    show _ = Except.ok (Option.map _ (Option.map _ (Option.map _ (Option.map _ (tuple.read rest)))))
    rw [show (a :: b :: command :: ver :: rest).drop 4 = rest from rfl]
    cases tuple.read rest <;> rfl
  all_goals rfl

theorem decode_stub : decode publishStub = .error .indexError := rfl

/-- The decoder returns on every body but the stub. -/
theorem decode_returns_iff (data : Bytes) : (∃ r, decode data = .ok r) ↔ data ≠ publishStub := by
  constructor
  · rintro ⟨r, hr⟩ rfl
    rw [decode_stub] at hr
    cases hr
  · intro h
    exact ⟨_, decode_reads h⟩

/-- The decoder raises on the stub, with which every encoded PUBLISH begins. -/
theorem stub_raises :
    decode [0xAA, 0xA0, 2, 1] = .error .indexError ∧
      ¬ ∀ m f, encode m = .ok f → ∀ cut, cut <+: f → cut ≠ f → ∃ r, decode cut = .ok r := by
  refine ⟨rfl, fun hall => ?_⟩
  have hfits : Fits [0x6B] [] := ⟨by decide, by decide, by decide⟩
  obtain ⟨r, hr⟩ := hall _ _ (encode_publish hfits (show 0 < 4294967296 by decide)) publishStub
    (by decide) (by decide)
  rw [decode_stub] at hr
  cases hr

/-! ## The round trip -/

/-- What was accepted begins with the body that the format writes for it. -/
theorem decode_eq_some {data : Bytes} {m : Message} (h : decode data = .ok (some m)) :
    body.Fits m ∧ body.write m <+: data := by
  have hne : data ≠ publishStub := by
    rintro rfl
    rw [decode_stub] at h
    cases h
  rw [decode_reads hne] at h
  obtain ⟨⟨m', rest⟩, hread, rfl⟩ := Option.map_eq_some_iff.1 (Except.ok.inj h)
  exact ⟨(body.write_read hread).1, body.write_prefix hread⟩

theorem decode_ttl {data key value : Bytes} {ttl : ℕ}
    (h : decode data = .ok (some (.publish key value ttl))) : ttl < 4294967296 :=
  (body_fits_publish.1 (decode_eq_some h).1).2.2

theorem decode_written {m : Message} (h : body.Fits m) (hne : body.write m ≠ publishStub) :
    decode (body.write m) = .ok (some m) := by
  rw [decode_reads hne, body.read_written h]
  rfl

theorem publishBytes_ne_stub (key value : Bytes) (ttl : ℕ) : publishBytes key value ttl ≠ publishStub := by
  intro h
  have hlen := congrArg List.length h
  simp [publishBytes, publishStub, Codec.shortBytes, Codec.longBytes, Codec.u32] at hlen

theorem decode_publishBytes {key value : Bytes} (hf : Fits key value) {ttl : ℕ} (ht : ttl < 4294967296) :
    decode (publishBytes key value ttl) = .ok (some (.publish key value ttl)) := by
  have hne := publishBytes_ne_stub key value ttl
  rw [← body_write_publish] at hne ⊢
  exact decode_written (hf.body ht) hne

/-- The encoder and the decoder are inverse to each other. The decoder takes an empty key and a long
value, which the encoder rejects. -/
theorem encode_inverse :
    (∀ key value ttl, 1 ≤ key.length → key.length ≤ 255 → value.length ≤ 65535 → ttl < 4294967296 →
      ∃ f, encode (.publish key value ttl) = .ok f ∧ decode f = .ok (some (.publish key value ttl))) ∧
    (∀ m ∈ [Message.hello, .ping, .pong, .invalid], ∃ f, encode m = .ok f ∧ decode f = .ok (some m)) ∧
    ∀ data m, decode data = .ok (some m) →
      (∀ key value ttl, m = .publish key value ttl → key ≠ [] ∧ value.length ≤ 65535) →
        ∃ f, encode m = .ok f ∧ f <+: data := by
  refine ⟨?_, ?_, ?_⟩
  · intro key value ttl hpos hkey hvalue httl
    have hfits : Fits key value := ⟨hpos, hkey, hvalue⟩
    exact ⟨_, encode_publish hfits httl, decode_publishBytes hfits httl⟩
  · intro m hm
    simp only [List.mem_cons, List.not_mem_nil, or_false] at hm
    rcases hm with rfl | rfl | rfl | rfl <;> exact ⟨_, rfl, rfl⟩
  · intro data m h hlimits
    obtain ⟨hfits, hprefix⟩ := decode_eq_some h
    by_cases hpub : ∃ key value ttl, m = .publish key value ttl
    · obtain ⟨key, value, ttl, rfl⟩ := hpub
      obtain ⟨hkey, -, httl⟩ := body_fits_publish.1 hfits
      obtain ⟨hne, hvalue⟩ := hlimits key value ttl rfl
      have hpos : 1 ≤ key.length := List.length_pos_iff.2 hne
      rw [body_write_publish] at hprefix
      exact ⟨_, encode_publish ⟨hpos, Nat.le_of_lt_succ hkey, hvalue⟩ httl, hprefix⟩
    · push Not at hpub
      exact ⟨_, (encode_bare hpub).1, hprefix⟩

end Zgs

end Zre
