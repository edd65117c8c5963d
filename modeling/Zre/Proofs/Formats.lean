import Zre.Lib.WireFormat
import Zre.Proofs.CodecProofs

/-!
# Proofs: the format of ZRE frames

A frame is its head, and then the body that belongs to its command. The readers of the codec work on
offsets into the whole frame; each reads what the format of its field reads from the rest of the frame.
So the decoder computes the reader of the frame format, and the laws of wire formats hold for it.
-/

namespace Zre

open Fallible

namespace Codec

/-! ## The fields -/

/-- A number of one byte. -/
def octet : WireFormat UInt8 ℕ := WireFormat.symbol.iso UInt8.toNat UInt8.ofNat fun a _ => by simp

/-- The number that two bytes stand for. -/
def u16Value : Bytes → ℕ
  | [a, b] => a.toNat * 256 + b.toNat
  | _ => 0

/-- The number that four bytes stand for. -/
def u32Value : Bytes → ℕ
  | [a, b, c, d] => a.toNat * 16777216 + b.toNat * 65536 + c.toNat * 256 + d.toNat
  | _ => 0

/-- A number of two bytes. -/
def half : WireFormat UInt8 ℕ :=
  (WireFormat.block 2).iso u16Value (fun n => [UInt8.ofNat (n / 256), UInt8.ofNat n]) fun l hl => by
    obtain ⟨a, b, rfl⟩ := List.length_eq_two.1 hl
    have hb := b.toNat_lt
    have ha := a.toNat_lt
    simp only [u16Value, List.cons.injEq, and_true, ← UInt8.toNat_inj, UInt8.toNat_ofNat']
    omega

/-- A number of four bytes. -/
def word : WireFormat UInt8 ℕ :=
  (WireFormat.block 4).iso u32Value u32 fun l hl => by
    obtain ⟨a, b, c, d, rfl⟩ := List.length_eq_four.1 hl
    have ha := a.toNat_lt
    have hb := b.toNat_lt
    have hc := c.toNat_lt
    have hd := d.toNat_lt
    simp only [u32Value, u32, List.cons.injEq, and_true, ← UInt8.toNat_inj, UInt8.toNat_ofNat']
    omega

/-- A string behind a length of one byte. -/
def short : WireFormat UInt8 Bytes := octet.sized WireFormat.block List.length fun _ _ => WireFormat.block_fits.1

/-- A string behind a length of four bytes. -/
def long : WireFormat UInt8 Bytes := word.sized WireFormat.block List.length fun _ _ => WireFormat.block_fits.1

/-- A list behind a count of four bytes. -/
def counted {α : Type} (F : WireFormat UInt8 α) : WireFormat UInt8 (List α) :=
  word.sized F.many List.length fun _ _ h => (WireFormat.many_fits.1 h).1

theorem octet_fits {n : ℕ} : octet.Fits n ↔ n < 256 := by
  show True ∧ (UInt8.ofNat n).toNat = n ↔ _
  simp only [UInt8.toNat_ofNat', true_and]
  omega

theorem half_fits {n : ℕ} : half.Fits n ↔ n < 65536 := by
  unfold half
  rw [WireFormat.iso_fits]
  simp only [WireFormat.block_fits, List.length_cons, List.length_nil, u16Value, UInt8.toNat_ofNat',
    true_and]
  omega

theorem word_fits {n : ℕ} : word.Fits n ↔ n < 4294967296 := by
  unfold word
  rw [WireFormat.iso_fits]
  simp only [WireFormat.block_fits, u32, List.length_cons, List.length_nil, u32Value,
    UInt8.toNat_ofNat', true_and]
  omega

theorem short_fits {v : Bytes} : short.Fits v ↔ v.length < 256 := by
  unfold short
  rw [WireFormat.sized_fits, octet_fits]
  exact and_iff_left rfl

theorem long_fits {v : Bytes} : long.Fits v ↔ v.length < 4294967296 := by
  unfold long
  rw [WireFormat.sized_fits, word_fits]
  exact and_iff_left rfl

theorem counted_fits {α : Type} {F : WireFormat UInt8 α} {l : List α} :
    (counted F).Fits l ↔ l.length < 4294967296 ∧ ∀ a ∈ l, F.Fits a := by
  unfold counted
  rw [WireFormat.sized_fits, word_fits]
  exact and_congr_right fun _ => and_iff_right rfl

theorem short_write (v : Bytes) : short.write v = shortBytes v := rfl

/-! ## The readers -/

theorem unpackI_eq_ok {b : Bytes} (h : b.length = 4) : unpackI b = .ok (u32Value b) := by
  obtain ⟨a, b, c, d, rfl⟩ := List.length_eq_four.1 h
  rfl

theorem drop_eq_cons {data : Bytes} {offset : ℕ} (h : offset < data.length) :
    data.drop offset = data[offset] :: data.drop (offset + 1) := List.drop_eq_getElem_cons h

/-- A byte that is read at an offset. -/
theorem octet_reads (data : Bytes) (offset : ℕ) :
    (data.length ≤ offset ∧ octet.read (data.drop offset) = none) ∨
      ∃ b, ¬ data.length ≤ offset ∧ byteAt data offset = .ok b ∧
        octet.read (data.drop offset) = some (b.toNat, data.drop (offset + 1)) := by
  by_cases h : data.length ≤ offset
  · refine Or.inl ⟨h, ?_⟩
    rw [List.drop_eq_nil_of_le h]
    rfl
  · have hlt := Nat.not_le.1 h
    refine Or.inr ⟨data[offset], h, byteAt_returns hlt, ?_⟩
    rw [drop_eq_cons hlt]
    rfl

/-- A number of four bytes that is read at an offset. -/
theorem word_reads (data : Bytes) (offset : ℕ) :
    (data.length < offset + 4 ∧ word.read (data.drop offset) = none) ∨
      ∃ n, ¬ data.length < offset + 4 ∧ unpackI (slice data offset (offset + 4)) = .ok n ∧
        word.read (data.drop offset) = some (n, data.drop (offset + 4)) := by
  unfold word
  rw [WireFormat.iso_read, WireFormat.block_read, List.length_drop]
  by_cases h : data.length < offset + 4
  · exact Or.inl ⟨h, by rw [if_neg (by omega)]; rfl⟩
  · have hlen : ((data.drop offset).take 4).length = 4 := by
      rw [List.length_take, List.length_drop]
      omega
    refine Or.inr ⟨u32Value ((data.drop offset).take 4), h, ?_, ?_⟩
    · rw [slice, Nat.add_sub_cancel_left]
      exact unpackI_eq_ok hlen
    · rw [if_pos (by omega), List.drop_drop]
      rfl

/-- `_rs` reads a short string. -/
theorem rs_reads (data : Bytes) (offset : ℕ) :
    (short.read (data.drop offset) = none ∧ ∃ stop, rs data offset = .ok (none, stop)) ∨
      ∃ v stop, rs data offset = .ok (some v, stop) ∧
        short.read (data.drop offset) = some (v, data.drop stop) := by
  unfold short rs
  rw [WireFormat.sized_read]
  obtain ⟨h, hread⟩ | ⟨b, h, hb, hread⟩ := octet_reads data offset
  · rw [hread, if_pos h]
    exact Or.inl ⟨rfl, offset, rfl⟩
  · rw [hread, if_neg h, hb, Option.bind_some, bind_ok, WireFormat.block_read, List.length_drop]
    by_cases hle : offset + 1 + b.toNat ≤ data.length
    · refine Or.inr ⟨slice data (offset + 1) (offset + 1 + b.toNat), offset + 1 + b.toNat, ?_, ?_⟩
      · simp only [if_pos hle, pure_eq_ok]
      · rw [if_pos (by omega), slice, Nat.add_sub_cancel_left, List.drop_drop]
    · refine Or.inl ⟨by rw [if_neg (by omega)], offset + 1, ?_⟩
      simp only [if_neg hle, pure_eq_ok]

/-- `_rl` reads a long string. -/
theorem rl_reads (data : Bytes) (offset : ℕ) :
    (long.read (data.drop offset) = none ∧ ∃ stop, rl data offset = .ok (none, stop)) ∨
      ∃ v stop, rl data offset = .ok (some v, stop) ∧ ¬ data.length < offset + 4 ∧
        long.read (data.drop offset) = some (v, data.drop stop) := by
  unfold long rl
  rw [WireFormat.sized_read]
  obtain ⟨h, hread⟩ | ⟨n, h, hn, hread⟩ := word_reads data offset
  · rw [hread, if_pos h]
    exact Or.inl ⟨rfl, offset, rfl⟩
  · rw [hread, if_neg h, hn, Option.bind_some, bind_ok, WireFormat.block_read, List.length_drop]
    by_cases hle : offset + 4 + n ≤ data.length
    · refine Or.inr ⟨slice data (offset + 4) (offset + 4 + n), offset + 4 + n, ?_, h, ?_⟩
      · simp only [if_pos hle, pure_eq_ok]
      · rw [if_pos (by omega), slice, Nat.add_sub_cancel_left, List.drop_drop]
    · refine Or.inl ⟨by rw [if_neg (by omega)], offset + 4, ?_⟩
      simp only [if_neg hle, pure_eq_ok]

/-- The group loop reads a number of long strings. -/
theorem decodeGroups_reads (data : Bytes) (count offset : ℕ) :
    ((long.readMany count (data.drop offset) = none ∧ decodeGroups data count offset = .ok none)) ∨
      ∃ gs stop, decodeGroups data count offset = .ok (some (gs, stop)) ∧
        long.readMany count (data.drop offset) = some (gs, data.drop stop) := by
  induction count generalizing offset with
  | zero => exact Or.inr ⟨[], offset, rfl, rfl⟩
  | succ count ih =>
    rw [WireFormat.readMany, decodeGroups]
    obtain ⟨hread, stop, hrl⟩ | ⟨g, stop, hrl, hlen, hread⟩ := rl_reads data offset
    · rw [hread, hrl]
      refine Or.inl ⟨rfl, ?_⟩
      split <;> rfl
    · rw [hread, hrl, if_neg hlen, bind_ok, Option.bind_some]
      simp only []
      obtain ⟨hread', hgs⟩ | ⟨gs, stop', hgs, hread'⟩ := ih stop
      · rw [hread', hgs]
        exact Or.inl ⟨rfl, rfl⟩
      · rw [hread', hgs]
        exact Or.inr ⟨g :: gs, stop', rfl, rfl⟩

/-- A header: its name, a short string, and its value, a long one. -/
def entry : WireFormat UInt8 (Bytes × Bytes) := short.seq fun _ => long

/-- The header loop reads a number of headers and writes them to the dictionary. -/
theorem decodeHeaders_reads (data : Bytes) (count offset : ℕ) (d : Dict Bytes Bytes) :
    ((entry.readMany count (data.drop offset) = none ∧ decodeHeaders data count offset d = .ok none)) ∨
      ∃ es stop, decodeHeaders data count offset d = .ok (some (es.foldl (fun d e => d.set e.1 e.2) d)) ∧
        entry.readMany count (data.drop offset) = some (es, data.drop stop) := by
  induction count generalizing offset d with
  | zero => exact Or.inr ⟨[], offset, rfl, rfl⟩
  | succ count ih =>
    rw [WireFormat.readMany, decodeHeaders]
    unfold entry
    rw [WireFormat.seq_read]
    obtain ⟨hread, stop, hrs⟩ | ⟨k, stop, hrs, hread⟩ := rs_reads data offset
    · rw [hread, hrs]
      exact Or.inl ⟨rfl, rfl⟩
    · rw [hread, hrs, bind_ok, Option.bind_some]
      simp only []
      obtain ⟨hread', stop', hrl⟩ | ⟨v, stop', hrl, -, hread'⟩ := rl_reads data stop
      · rw [hread', hrl]
        exact Or.inl ⟨rfl, rfl⟩
      · rw [hread', hrl, bind_ok, Option.map_some, Option.bind_some]
        simp only []
        obtain ⟨hrest, hd⟩ | ⟨es, stop'', hd, hrest⟩ := ih stop' (d.set k v)
        · refine Or.inl ⟨?_, hd⟩
          unfold entry at hrest
          rw [hrest]
          rfl
        · refine Or.inr ⟨(k, v) :: es, stop'', hd, ?_⟩
          unfold entry at hrest
          rw [hrest]
          rfl

/-- The body of a HELLO: endpoint, groups, status, name and headers. -/
def hello : WireFormat UInt8 (Bytes × List Bytes × ℕ × Bytes × List (Bytes × Bytes)) :=
  short.seq fun _ => (counted long).seq fun _ => octet.seq fun _ => short.seq fun _ => counted entry

/-- The fields that a HELLO body stands for; a header that is named twice keeps its last value. -/
def helloFields (p : Bytes × List Bytes × ℕ × Bytes × List (Bytes × Bytes)) : HelloFields :=
  ⟨p.1, p.2.1, p.2.2.1, p.2.2.2.1, p.2.2.2.2.foldl (fun d e => d.set e.1 e.2) Dict.empty⟩

theorem decodeHello_reads (data : Bytes) (offset : ℕ) :
    decodeHello data offset = .ok ((hello.read (data.drop offset)).map fun p => helloFields p.1) := by
  unfold decodeHello hello counted
  simp only [WireFormat.seq_read, WireFormat.sized_read, WireFormat.many_read]
  obtain ⟨h1, stop, hrs⟩ | ⟨endpoint, stop1, hrs, h1⟩ := rs_reads data offset
  · rw [h1, hrs]
    rfl
  rw [h1, hrs, bind_ok, Option.bind_some]
  simp only []
  obtain ⟨hlen, h2⟩ | ⟨gcount, hlen, hcount, h2⟩ := word_reads data stop1
  · rw [h2, if_pos hlen]
    rfl
  rw [h2, if_neg hlen, hcount, bind_ok, Option.bind_some]
  simp only []
  obtain ⟨h3, hgs⟩ | ⟨gs, stop3, hgs, h3⟩ := decodeGroups_reads data gcount (stop1 + 4)
  · rw [h3, hgs]
    rfl
  rw [h3, hgs, bind_ok, Option.bind_some]
  simp only []
  obtain ⟨hlen, h4⟩ | ⟨status, hlen, hstatus, h4⟩ := octet_reads data stop3
  · rw [h4, if_pos hlen]
    rfl
  rw [h4, if_neg hlen, hstatus, bind_ok, Option.bind_some]
  simp only []
  obtain ⟨h5, stop, hrs⟩ | ⟨name, stop5, hrs, h5⟩ := rs_reads data (stop3 + 1)
  · rw [h5, hrs]
    rfl
  rw [h5, hrs, bind_ok, Option.bind_some]
  simp only []
  obtain ⟨hlen, h6⟩ | ⟨hcount, hlen, hcount', h6⟩ := word_reads data stop5
  · rw [h6, if_pos hlen]
    rfl
  rw [h6, if_neg hlen, hcount', bind_ok, Option.bind_some]
  simp only []
  obtain ⟨h7, hd⟩ | ⟨es, stop7, hd, h7⟩ := decodeHeaders_reads data hcount (stop5 + 4) Dict.empty
  · rw [h7, hd]
    rfl
  rw [h7, hd]
  rfl

/-! ## The frame -/

/-- What follows the head of a frame. The headers of a HELLO are listed as they stand in the frame. -/
inductive Body where
  | bare
  | hello (p : Bytes × List Bytes × ℕ × Bytes × List (Bytes × Bytes))
  | group (g : Bytes)
  | groupStatus (p : Bytes × ℕ)
  | election (p : Bytes × Bytes)

/-- The decoded fields of a body. -/
def Body.fields : Body → Fields
  | bare => .none
  | hello p => .hello (helloFields p)
  | group g => .group g
  | groupStatus p => .groupStatus p.1 p.2
  | election p => .election p.1 p.2

def Body.asBare : Body → Option Unit
  | bare => some ()
  | _ => none

def Body.asHello : Body → Option (Bytes × List Bytes × ℕ × Bytes × List (Bytes × Bytes))
  | hello p => some p
  | _ => none

def Body.asGroup : Body → Option Bytes
  | group g => some g
  | _ => none

def Body.asGroupStatus : Body → Option (Bytes × ℕ)
  | groupStatus p => some p
  | _ => none

def Body.asElection : Body → Option (Bytes × Bytes)
  | election p => some p
  | _ => none

theorem Body.asBare_eq_some {u : Unit} {b : Body} : b.asBare = some u ↔ Body.bare = b := by
  cases b <;> simp [asBare]

theorem Body.asHello_eq_some {p : Bytes × List Bytes × ℕ × Bytes × List (Bytes × Bytes)} {b : Body} :
    b.asHello = some p ↔ Body.hello p = b := by
  cases b <;> simp [asHello, eq_comm]

theorem Body.asGroup_eq_some {g : Bytes} {b : Body} : b.asGroup = some g ↔ Body.group g = b := by
  cases b <;> simp [asGroup, eq_comm]

theorem Body.asGroupStatus_eq_some {p : Bytes × ℕ} {b : Body} :
    b.asGroupStatus = some p ↔ Body.groupStatus p = b := by
  cases b <;> simp [asGroupStatus, eq_comm]

theorem Body.asElection_eq_some {p : Bytes × Bytes} {b : Body} :
    b.asElection = some p ↔ Body.election p = b := by
  cases b <;> simp [asElection, eq_comm]

/-- The format of the body that belongs to a command; an unknown command has none. -/
def body (cmd : UInt8) : WireFormat UInt8 Body :=
  if cmd = Cmd.hello then hello.embed Body.hello Body.asHello Body.asHello_eq_some
  else if cmd = Cmd.shout ∨ cmd = Cmd.join ∨ cmd = Cmd.leave then
    if cmd = Cmd.join ∨ cmd = Cmd.leave then
      (short.seq fun _ => octet).embed Body.groupStatus Body.asGroupStatus Body.asGroupStatus_eq_some
    else short.embed Body.group Body.asGroup Body.asGroup_eq_some
  else if cmd = Cmd.elect ∨ cmd = Cmd.leader then
    (short.seq fun _ => short).embed Body.election Body.asElection Body.asElection_eq_some
  else (WireFormat.mark []).embed (fun _ => Body.bare) Body.asBare Body.asBare_eq_some

/-- The head of a frame: signature, command, version and sequence number. -/
def head : WireFormat UInt8 (UInt8 × ℕ) :=
  ((WireFormat.mark [0xAA, 0xA1]).seq fun _ => WireFormat.symbol.seq fun _ =>
    (WireFormat.mark [zreVersion]).seq fun _ => half).iso (fun p => (p.2.1, p.2.2.2))
      (fun p => ((), p.1, (), p.2)) fun _ _ => rfl

/-- A frame: command, sequence number and body. -/
def frame : WireFormat UInt8 ((UInt8 × ℕ) × Body) := head.seq fun p => body p.1

/-- The decoded message of a frame. -/
def message (p : (UInt8 × ℕ) × Body) : Msg := ⟨p.1.1, zreVersion, p.1.2, p.2.fields⟩

theorem decodeGroup_reads (cmd : UInt8) (data : Bytes) (offset : ℕ)
    (hcmd : cmd = Cmd.shout ∨ cmd = Cmd.join ∨ cmd = Cmd.leave) :
    decodeGroup cmd data offset =
      .ok (((body cmd).read (data.drop offset)).map fun p => p.1.fields) := by
  have hhello : cmd ≠ Cmd.hello := by
    rintro rfl
    revert hcmd
    decide
  unfold decodeGroup body
  rw [if_neg hhello, if_pos hcmd]
  by_cases hstatus : cmd = Cmd.join ∨ cmd = Cmd.leave
  · rw [if_pos hstatus, WireFormat.embed_read, WireFormat.seq_read]
    obtain ⟨h1, stop, hrs⟩ | ⟨g, stop, hrs, h1⟩ := rs_reads data offset
    · rw [h1, hrs]
      rfl
    rw [h1, hrs, bind_ok, Option.bind_some]
    simp only [if_pos hstatus]
    obtain ⟨hlen, h2⟩ | ⟨status, hlen, hst, h2⟩ := octet_reads data stop
    · rw [h2, if_pos hlen]
      rfl
    · rw [h2, if_neg hlen, hst]
      rfl
  · rw [if_neg hstatus, WireFormat.embed_read]
    obtain ⟨h1, stop, hrs⟩ | ⟨g, stop, hrs, h1⟩ := rs_reads data offset
    · rw [h1, hrs]
      rfl
    · rw [h1, hrs, bind_ok]
      simp only [if_neg hstatus]
      rfl

theorem decodeElection_reads (cmd : UInt8) (data : Bytes) (offset : ℕ)
    (hcmd : cmd = Cmd.elect ∨ cmd = Cmd.leader) :
    decodeElection data offset =
      .ok (((body cmd).read (data.drop offset)).map fun p => p.1.fields) := by
  have hother : cmd ≠ Cmd.hello ∧ ¬ (cmd = Cmd.shout ∨ cmd = Cmd.join ∨ cmd = Cmd.leave) := by
    rcases hcmd with rfl | rfl <;> decide
  unfold decodeElection body
  rw [if_neg hother.1, if_neg hother.2, if_pos hcmd, WireFormat.embed_read, WireFormat.seq_read]
  obtain ⟨h1, stop, hrs⟩ | ⟨g, stop, hrs, h1⟩ := rs_reads data offset
  · rw [h1, hrs]
    rfl
  rw [h1, hrs, bind_ok, Option.bind_some]
  simp only []
  obtain ⟨h2, stop', hrs'⟩ | ⟨id, stop', hrs', h2⟩ := rs_reads data stop
  · rw [h2, hrs']
    rfl
  · rw [h2, hrs']
    rfl

theorem decodeFields_reads (cmd : UInt8) (data : Bytes) (offset : ℕ) :
    decodeFields cmd data offset =
      .ok (((body cmd).read (data.drop offset)).map fun p => p.1.fields) := by
  unfold decodeFields
  by_cases h1 : cmd = Cmd.hello
  · rw [if_pos h1, body, if_pos h1, WireFormat.embed_read, decodeHello_reads]
    cases hello.read (data.drop offset) <;> rfl
  rw [if_neg h1]
  by_cases h2 : cmd = Cmd.shout ∨ cmd = Cmd.join ∨ cmd = Cmd.leave
  · rw [if_pos h2, decodeGroup_reads cmd data offset h2]
  rw [if_neg h2]
  by_cases h3 : cmd = Cmd.elect ∨ cmd = Cmd.leader
  · rw [if_pos h3, decodeElection_reads cmd data offset h3]
  · rw [if_neg h3, body, if_neg h1, if_neg h2, if_neg h3]
    rfl

/-- A frame shorter than its head cannot be read. -/
theorem head_read_short {data : Bytes} (h : data.length < 6) : head.read data = none := by
  cases hread : head.read data with
  | none => rfl
  | some p =>
    obtain ⟨q, rest⟩ := p
    have hdata : data = head.write q ++ rest := (head.write_read hread).2
    have hlen : (head.write q).length = 6 := rfl
    rw [hdata, List.length_append, hlen] at h
    omega

/-- The head of a frame, byte by byte. -/
theorem head_read (a b cmd ver s1 s2 : UInt8) (rest : Bytes) :
    head.read (a :: b :: cmd :: ver :: s1 :: s2 :: rest) =
      if [a, b] = [0xAA, 0xA1] then
        if [ver] = [zreVersion] then some ((cmd, s1.toNat * 256 + s2.toNat), rest) else none
      else none := by
  unfold head
  rw [WireFormat.iso_read, WireFormat.seq_read]
  show Option.map _ (Option.bind (if [a, b] = [0xAA, 0xA1] then _ else none) _) = _
  by_cases hsig : [a, b] = [0xAA, 0xA1]
  · rw [if_pos hsig, if_pos hsig, Option.bind_some]
    show Option.map _ (Option.map _ (Option.map _ (Option.bind (if [ver] = [zreVersion] then _ else none) _))) = _
    by_cases hver : [ver] = [zreVersion]
    · rw [if_pos hver, if_pos hver]
      rfl
    · rw [if_neg hver, if_neg hver]
      rfl
  · rw [if_neg hsig, if_neg hsig]
    rfl

/-- The decoder reads a frame. -/
theorem decode_reads (data : Bytes) : decode data = .ok ((frame.read data).map fun p => message p.1) := by
  unfold decode frame
  rw [WireFormat.seq_read]
  by_cases hlen : data.length < 6
  · rw [if_pos hlen, head_read_short hlen]
    rfl
  rw [if_neg hlen]
  rcases data with _ | ⟨a, _ | ⟨b, _ | ⟨cmd, _ | ⟨ver, _ | ⟨s1, _ | ⟨s2, rest⟩⟩⟩⟩⟩⟩
  iterate 6 exact absurd (by simp) hlen
  have hsig : a.toNat * 256 + b.toNat = zreSignature ↔ [a, b] = [0xAA, 0xA1] := by
    have ha := a.toNat_lt
    have hb := b.toNat_lt
    simp only [zreSignature, List.cons.injEq, and_true, ← UInt8.toNat_inj]
    show _ ↔ a.toNat = 170 ∧ b.toNat = 161
    omega
  rw [head_read]
  show (if a.toNat * 256 + b.toNat ≠ zreSignature then _ else _) = _
  by_cases h1 : a.toNat * 256 + b.toNat = zreSignature
  · rw [if_neg (not_not.2 h1), if_pos (hsig.1 h1)]
    show (if ver ≠ zreVersion then _ else _) = _
    by_cases h2 : ver = zreVersion
    · rw [if_neg (not_not.2 h2), if_pos (by rw [h2]), Option.bind_some]
      show (decodeFields cmd (a :: b :: cmd :: ver :: s1 :: s2 :: rest) 6 >>= _) = _
      rw [decodeFields_reads, bind_ok]
      have hdrop : (a :: b :: cmd :: ver :: s1 :: s2 :: rest).drop 6 = rest := rfl
      rw [hdrop]
      cases (body cmd).read rest with
      | none => rfl
      | some p =>
        rw [h2]
        rfl
    · rw [if_pos h2, if_neg (by simpa using h2)]
      rfl
  · rw [if_pos h1, if_neg fun h => h1 (hsig.2 h)]
    rfl

end Codec

end Zre
