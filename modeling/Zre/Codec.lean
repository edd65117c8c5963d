import Zre.Lib.Dict
import Zre.Text

/-!
# The ZRE message codec

`Codec` of `node.py`: the encoders for the ten commands and the decoder. Encoding fails where
`bytes([len(value)])` or `struct.pack` raise; decoding keeps the difference between a rejected frame
(`none`) and a read outside the frame (an exception).
-/

namespace Zre

/-! ## Commands -/

def zreSignature : Nat := 0xAAA1

def zreVersion : UInt8 := 2

namespace Cmd

def hello : UInt8 := 1
def whisper : UInt8 := 2
def shout : UInt8 := 3
def join : UInt8 := 4
def leave : UInt8 := 5
def ping : UInt8 := 6
def pingOk : UInt8 := 7
def elect : UInt8 := 8
def leader : UInt8 := 9
def goodbye : UInt8 := 10

end Cmd

/-- The longest string that a one-octet length can announce. -/
def maxStringBytes : Nat := 255

/-- A short string: the result of `_wire_string`. -/
structure WireString where
  /-- The encoded value. -/
  raw : Bytes
  /-- `_wire_string` raises on anything longer. -/
  le : raw.length ≤ maxStringBytes

/-- `_wire_string` -/
def wireString (value : Bytes) : Except PyError WireString :=
  if h : value.length ≤ maxStringBytes then .ok ⟨value, h⟩ else .error .valueError

/-- The fields of a HELLO. -/
structure HelloFields where
  endpoint : Bytes
  groups : List Bytes
  status : Nat
  name : Bytes
  headers : Dict Bytes Bytes

/-- The dictionary of decoded fields; which keys it has depends on the command. -/
inductive Fields where
  | none
  | hello (h : HelloFields)
  /-- SHOUT -/
  | group (group : Bytes)
  /-- JOIN and LEAVE -/
  | groupStatus (group : Bytes) (status : Nat)
  /-- ELECT (`challenger`) and LEADER (`leader`) -/
  | election (group id : Bytes)

/-- A decoded frame. -/
structure Msg where
  cmd : UInt8
  ver : UInt8
  seq : Nat
  fields : Fields

/-! ## `struct` -/

/-- `struct.pack("B", n)` -/
def packB (n : Nat) : Except PyError Bytes :=
  if n < 256 then .ok [UInt8.ofNat n] else .error .structError

/-- `struct.pack("!H", n)` -/
def packH (n : Nat) : Except PyError Bytes :=
  if n < 65536 then .ok [UInt8.ofNat (n / 256), UInt8.ofNat n] else .error .structError

/-- `struct.pack("!I", n)` -/
def packI (n : Nat) : Except PyError Bytes :=
  if n < 4294967296 then
    .ok [UInt8.ofNat (n / 16777216), UInt8.ofNat (n / 65536), UInt8.ofNat (n / 256), UInt8.ofNat n]
  else .error .structError

/-- `struct.unpack("!H", b)[0]` -/
def unpackH : Bytes → Except PyError Nat
  | [a, b] => .ok (a.toNat * 256 + b.toNat)
  | _ => .error .structError

/-- `struct.unpack("!I", b)[0]` -/
def unpackI : Bytes → Except PyError Nat
  | [a, b, c, d] => .ok (a.toNat * 16777216 + b.toNat * 65536 + c.toNat * 256 + d.toNat)
  | _ => .error .structError

/-- `data[i]` -/
def byteAt (data : Bytes) (i : Nat) : Except PyError UInt8 :=
  match data[i]? with
  | some b => .ok b
  | none => .error .indexError

/-- `data[i:j]` -/
def slice (data : Bytes) (i j : Nat) : Bytes := (data.drop i).take (j - i)

namespace Codec

/-! ## Encoders -/

/-- `Codec._s` -/
def s (buf value : Bytes) : Except PyError Bytes :=
  if value.length < 256 then .ok (buf ++ UInt8.ofNat value.length :: value)
  else .error .valueError

/-- `Codec._l` -/
def l (buf value : Bytes) : Except PyError Bytes := do
  let n ← packI value.length
  return buf ++ n ++ value

/-- The six bytes that every message starts with: `struct.pack("!HBBH", ...)`. -/
def header (cmd : UInt8) (seq : Nat) : Except PyError Bytes := do
  let sig ← packH zreSignature
  let sq ← packH seq
  return sig ++ [cmd, zreVersion] ++ sq

/-- The loop of `encode_hello` over the header dictionary. -/
def encodeHeaders (buf : Bytes) : List (Bytes × Bytes) → Except PyError Bytes
  | [] => .ok buf
  | (key, value) :: hdr => do
    let buf ← s buf key
    let buf ← l buf value
    encodeHeaders buf hdr

/-- `Codec.encode_hello` -/
def encodeHello (seq : Nat) (endpoint : Bytes) (groups : List Bytes) (status : Nat) (name : Bytes)
    (headers : Dict Bytes Bytes) : Except PyError Bytes := do
  let buf ← header Cmd.hello seq
  let buf ← s buf endpoint
  let n ← packI groups.length
  let buf ← groups.foldlM l (buf ++ n)
  let st ← packB status
  let buf ← s (buf ++ st) name
  let n ← packI headers.entries.length
  encodeHeaders (buf ++ n) headers.entries

/-- `Codec.encode_simple` -/
def encodeSimple (cmd : UInt8) (seq : Nat) (group : Option Bytes) (status : Option Nat) :
    Except PyError Bytes := do
  let buf ← header cmd seq
  let buf ← match group with
    | none => pure buf
    | some g => s buf g
  match status with
  | none => return buf
  | some st => do
    let b ← packB st
    return buf ++ b

/-- `Codec.encode_election` -/
def encodeElection (cmd : UInt8) (seq : Nat) (group peerId : Bytes) : Except PyError Bytes := do
  let buf ← header cmd seq
  let buf ← s buf group
  s buf peerId

/-! ## The decoder -/

/-- `Codec._rs` -/
def rs (data : Bytes) (offset : Nat) : Except PyError (Option Bytes × Nat) :=
  if data.length ≤ offset then .ok (none, offset)
  else do
    let length ← byteAt data offset
    let offset := offset + 1
    let stop := offset + length.toNat
    return if stop ≤ data.length then (some (slice data offset stop), stop) else (none, offset)

/-- `Codec._rl` -/
def rl (data : Bytes) (offset : Nat) : Except PyError (Option Bytes × Nat) :=
  if data.length < offset + 4 then .ok (none, offset)
  else do
    let length ← unpackI (slice data offset (offset + 4))
    let offset := offset + 4
    let stop := offset + length
    return if stop ≤ data.length then (some (slice data offset stop), stop) else (none, offset)

/-- The `for _ in range(group_count)` loop of a HELLO. -/
def decodeGroups (data : Bytes) : Nat → Nat → Except PyError (Option (List Bytes × Nat))
  | 0, offset => .ok (some ([], offset))
  | count + 1, offset =>
    if data.length < offset + 4 then .ok none
    else do
      match ← rl data offset with
      | (none, _) => return none
      | (some group, offset) =>
        match ← decodeGroups data count offset with
        | none => return none
        | some (groups, offset) => return some (group :: groups, offset)

/-- The `for _ in range(header_count)` loop of a HELLO. -/
def decodeHeaders (data : Bytes) :
    Nat → Nat → Dict Bytes Bytes → Except PyError (Option (Dict Bytes Bytes))
  | 0, _, headers => .ok (some headers)
  | count + 1, offset, headers => do
    match ← rs data offset with
    | (none, _) => return none
    | (some key, offset) =>
      match ← rl data offset with
      | (none, _) => return none
      | (some value, offset) => decodeHeaders data count offset (headers.set key value)

/-- The `cmd == HELLO` branch of `Codec.decode`. -/
def decodeHello (data : Bytes) (offset : Nat) : Except PyError (Option HelloFields) := do
  match ← rs data offset with
  | (none, _) => return none
  | (some endpoint, offset) =>
    if data.length < offset + 4 then return none
    let groupCount ← unpackI (slice data offset (offset + 4))
    match ← decodeGroups data groupCount (offset + 4) with
    | none => return none
    | some (groups, offset) =>
      if data.length ≤ offset then return none
      let status ← byteAt data offset
      match ← rs data (offset + 1) with
      | (none, _) => return none
      | (some name, offset) =>
        if data.length < offset + 4 then return none
        let headerCount ← unpackI (slice data offset (offset + 4))
        match ← decodeHeaders data headerCount (offset + 4) Dict.empty with
        | none => return none
        | some headers => return some ⟨endpoint, groups, status.toNat, name, headers⟩

/-- The `cmd in (SHOUT, JOIN, LEAVE)` branch. -/
def decodeGroup (cmd : UInt8) (data : Bytes) (offset : Nat) : Except PyError (Option Fields) := do
  match ← rs data offset with
  | (none, _) => return none
  | (some group, offset) =>
    if cmd = Cmd.join ∨ cmd = Cmd.leave then
      if data.length ≤ offset then return none
      let status ← byteAt data offset
      return some (.groupStatus group status.toNat)
    else return some (.group group)

/-- The `cmd in (ELECT, LEADER)` branch. -/
def decodeElection (data : Bytes) (offset : Nat) : Except PyError (Option Fields) := do
  match ← rs data offset with
  | (none, _) => return none
  | (some group, offset) =>
    match ← rs data offset with
    | (none, _) => return none
    | (some id, _) => return some (.election group id)

/-- The branches of `Codec.decode` on the command; an unknown command has no fields. -/
def decodeFields (cmd : UInt8) (data : Bytes) (offset : Nat) : Except PyError (Option Fields) :=
  if cmd = Cmd.hello then do
    match ← decodeHello data offset with
    | none => return none
    | some h => return some (.hello h)
  else if cmd = Cmd.shout ∨ cmd = Cmd.join ∨ cmd = Cmd.leave then decodeGroup cmd data offset
  else if cmd = Cmd.elect ∨ cmd = Cmd.leader then decodeElection data offset
  else .ok (some .none)

/-- `Codec.decode` -/
def decode (data : Bytes) : Except PyError (Option Msg) := do
  if data.length < 6 then return none
  let sig ← unpackH (slice data 0 2)
  if sig ≠ zreSignature then return none
  let cmd ← byteAt data 2
  let ver ← byteAt data 3
  if ver ≠ zreVersion then return none
  let seq ← unpackH (slice data 4 6)
  match ← decodeFields cmd data 6 with
  | none => return none
  | some fields => return some ⟨cmd, ver, seq, fields⟩

end Codec

end Zre
