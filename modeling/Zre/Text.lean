import Mathlib.Data.List.Basic
import Mathlib.Data.Char

/-!
# Text and byte strings

Python's `bytes` is `Bytes` and its `str` is `Str`, a list of code points. This file has the text
operations that `node.py` uses: strict and replacing UTF-8 decoding, `int()`, the hex form of a uuid
and the two endpoint helpers `_tcp_address` and `_split_endpoint`.

What depends on the interpreter's Unicode database (`str.upper`, `str.lower`, whitespace and decimal
digits) and on pyzmq (`z85.decode`) comes in a `Runtime`.
-/

namespace Zre

abbrev Bytes := List UInt8

abbrev Str := List Char

instance : LawfulBEq Bytes := List.instLawfulBEq

/-- The exceptions that the modelled code raises. -/
inductive PyError where
  /-- `UUIDCollisionError` out of a HELLO, with the endpoint that its text quotes. -/
  | uuidCollisionHello (endpoint : Bytes)
  /-- `UUIDCollisionError` out of a beacon, with the sender that its text quotes. -/
  | uuidCollisionBeacon (host : Str) (port : Nat)
  | valueError
  | indexError
  | structError
  | typeError
  | osError
  | unicodeDecodeError
  deriving DecidableEq, Repr

/-- The error is a `UUIDCollisionError`. -/
def PyError.IsCollision : PyError → Prop
  | .uuidCollisionHello _ => True
  | .uuidCollisionBeacon _ _ => True
  | _ => False

instance : DecidablePred PyError.IsCollision := fun e => by
  cases e <;> simp only [PyError.IsCollision] <;> infer_instance

/-- What the interpreter and pyzmq supply. On ASCII text the case mappings, the whitespace test and
the digit values are the usual ones, whatever the version of the Unicode database. -/
structure Runtime where
  /-- `str.upper` -/
  upper : Str → Str
  /-- `str.lower` -/
  lower : Str → Str
  /-- `str.isspace` on one character, the characters that `int()` strips. -/
  isSpace : Char → Bool
  /-- The value of a decimal digit of any script. -/
  digit : Char → Option Nat
  /-- `sys.get_int_max_str_digits()`; 0 is no limit. -/
  maxStrDigits : Nat
  /-- `z85.decode`, which is taken to return or to raise a `ValueError`; `none` is the error. -/
  z85Decode : Bytes → Option Bytes
  upper_ascii : ∀ s : Str, (∀ c ∈ s, c.toNat < 128) → upper s = s.map Char.toUpper
  lower_ascii : ∀ s : Str, (∀ c ∈ s, c.toNat < 128) → lower s = s.map Char.toLower
  digit_ascii : ∀ c : Char, c.toNat < 128 →
    digit c = if c.isDigit then some (c.toNat - 48) else none

/-- An interpreter that knows the ASCII characters only, and no `z85`. -/
def Runtime.ascii : Runtime where
  upper s := s.map Char.toUpper
  lower s := s.map Char.toLower
  isSpace c := c = ' ' || (9 ≤ c.toNat && c.toNat ≤ 13)
  digit c := if c.isDigit then some (c.toNat - 48) else none
  maxStrDigits := 4300
  z85Decode _ := none
  upper_ascii _ _ := rfl
  lower_ascii _ _ := rfl
  digit_ascii _ _ := rfl

/-! ## UTF-8 -/

/-- `str.encode()` -/
def encodeStr (s : Str) : Bytes := s.flatMap String.utf8EncodeChar

/-- The code point `n`; the callers below only pass scalar values. -/
def chr (n : Nat) : Char := Char.ofNat n

/-- U+FFFD, the replacement character of `errors="replace"`. -/
def replacement : Char := Char.ofNat 0xFFFD

/-- Continuation bytes. -/
def isCont (b : UInt8) : Bool := 0x80 ≤ b && b < 0xC0

/-- The second bytes that may follow the lead byte of a three-byte sequence: no overlong forms, no
surrogates. -/
def isSecond3 (b0 b1 : UInt8) : Bool :=
  isCont b1 && !(b0 == 0xE0 && b1 < 0xA0) && !(b0 == 0xED && 0xA0 ≤ b1)

/-- The second bytes that may follow the lead byte of a four-byte sequence: no overlong forms,
nothing above U+10FFFF. -/
def isSecond4 (b0 b1 : UInt8) : Bool :=
  isCont b1 && !(b0 == 0xF0 && b1 < 0x90) && !(b0 == 0xF4 && 0x90 ≤ b1)

/-- UTF-8 decoding. Each ill-formed stretch (a maximal prefix of a well-formed sequence, or a single
byte) is a `none`. -/
def decodeUtf8 : Bytes → List (Option Char)
  | [] => []
  | b0 :: rest =>
    if b0 < 0x80 then some (chr b0.toNat) :: decodeUtf8 rest
    else if b0 < 0xC2 then none :: decodeUtf8 rest
    else if b0 < 0xE0 then
      match rest with
      | [] => [none]
      | b1 :: rest1 =>
        if isCont b1 then
          some (chr ((b0.toNat - 0xC0) * 64 + (b1.toNat - 0x80))) :: decodeUtf8 rest1
        else none :: decodeUtf8 (b1 :: rest1)
    else if b0 < 0xF0 then
      match rest with
      | [] => [none]
      | b1 :: rest1 =>
        if isSecond3 b0 b1 then
          match rest1 with
          | [] => [none]
          | b2 :: rest2 =>
            if isCont b2 then
              some (chr ((b0.toNat - 0xE0) * 4096 + (b1.toNat - 0x80) * 64 + (b2.toNat - 0x80))) ::
                decodeUtf8 rest2
            else none :: decodeUtf8 (b2 :: rest2)
        else none :: decodeUtf8 (b1 :: rest1)
    else if b0 < 0xF5 then
      match rest with
      | [] => [none]
      | b1 :: rest1 =>
        if isSecond4 b0 b1 then
          match rest1 with
          | [] => [none]
          | b2 :: rest2 =>
            if isCont b2 then
              match rest2 with
              | [] => [none]
              | b3 :: rest3 =>
                if isCont b3 then
                  some (chr ((b0.toNat - 0xF0) * 262144 + (b1.toNat - 0x80) * 4096 +
                    (b2.toNat - 0x80) * 64 + (b3.toNat - 0x80))) :: decodeUtf8 rest3
                else none :: decodeUtf8 (b3 :: rest3)
            else none :: decodeUtf8 (b2 :: rest2)
        else none :: decodeUtf8 (b1 :: rest1)
    else none :: decodeUtf8 rest

/-- `_bdec`: `value.decode(errors="replace")` -/
def bdec (value : Bytes) : Str := (decodeUtf8 value).map (·.getD replacement)

/-- `value.decode()`, which raises on ill-formed input. -/
def decodeStrict (value : Bytes) : Except PyError Str :=
  let cs := decodeUtf8 value
  if cs.all (·.isSome) then .ok (cs.map (·.getD replacement)) else .error .unicodeDecodeError

/-! ## Numbers and hex -/

/-- The digits of `int()`'s argument: at least one, single underscores between digits. -/
def intDigits (rt : Runtime) : Str → Option (List Nat)
  | [] => none
  | c :: cs =>
    match rt.digit c with
    | none => none
    | some d =>
      match cs with
      | [] => some [d]
      | '_' :: cs' => (intDigits rt cs').map (d :: ·)
      | cs => (intDigits rt cs).map (d :: ·)

/-- `str.strip()` with a character test. -/
def stripWith (p : Char → Bool) (s : Str) : Str :=
  ((s.dropWhile p).reverse.dropWhile p).reverse

/-- `int(s)` -/
def pyInt (rt : Runtime) (s : Str) : Except PyError Int :=
  let body := stripWith rt.isSpace s
  let (neg, digits) : Bool × Str :=
    match body with
    | '-' :: ds => (true, ds)
    | '+' :: ds => (false, ds)
    | ds => (false, ds)
  match intDigits rt digits with
  | none => .error .valueError
  | some ds =>
    if rt.maxStrDigits ≠ 0 ∧ rt.maxStrDigits < ds.length then .error .valueError
    else
      let n : Nat := ds.foldl (fun a d => 10 * a + d) 0
      .ok (if neg then -(n : Int) else n)

/-- `str(n)` for a number that is not negative. -/
def natStr (n : Nat) : Str := Nat.toDigits 10 n

/-- `str(n)` -/
def intStr (n : Int) : Str := if n < 0 then '-' :: natStr n.natAbs else natStr n.toNat

/-- One lower-case hex digit. -/
def hexDigit (n : Nat) : Char := if n < 10 then chr (48 + n) else chr (87 + n)

/-- `bytes.hex()` -/
def hex (b : Bytes) : Str := b.flatMap fun x => [hexDigit (x.toNat / 16), hexDigit (x.toNat % 16)]

/-- The value of a hex digit, for `int(s, 16)`: a decimal digit of any script, or a letter. -/
def hexValue (rt : Runtime) (c : Char) : Option Nat :=
  match rt.digit c with
  | some d => some d
  | none =>
    if 'a' ≤ c ∧ c ≤ 'f' then some (c.toNat - 87)
    else if 'A' ≤ c ∧ c ≤ 'F' then some (c.toNat - 55)
    else none

/-- The digits of `int()`'s argument in base 16. -/
def hexDigits (rt : Runtime) : Str → Option (List Nat)
  | [] => none
  | c :: cs =>
    match hexValue rt c with
    | none => none
    | some d =>
      match cs with
      | [] => some [d]
      | '_' :: cs' => (hexDigits rt cs').map (d :: ·)
      | cs => (hexDigits rt cs).map (d :: ·)

/-- `0x`, and one underscore after it. -/
def dropHexPrefix : Str → Str
  | '0' :: 'x' :: '_' :: s => s
  | '0' :: 'X' :: '_' :: s => s
  | '0' :: 'x' :: s => s
  | '0' :: 'X' :: s => s
  | s => s

/-- `int(s, 16)`, which has no limit on the number of digits. -/
def pyIntHex (rt : Runtime) (s : Str) : Except PyError Int :=
  let body := stripWith rt.isSpace s
  let (neg, digits) : Bool × Str :=
    match body with
    | '-' :: ds => (true, ds)
    | '+' :: ds => (false, ds)
    | ds => (false, ds)
  match hexDigits rt (dropHexPrefix digits) with
  | none => .error .valueError
  | some ds =>
    let n : Nat := ds.foldl (fun a d => 16 * a + d) 0
    .ok (if neg then -(n : Int) else n)

/-- The value of an ASCII hex digit. -/
def nibble (c : Char) : Option Nat :=
  if c.isDigit then some (c.toNat - 48)
  else if 'a' ≤ c ∧ c ≤ 'f' then some (c.toNat - 87)
  else if 'A' ≤ c ∧ c ≤ 'F' then some (c.toNat - 55)
  else none

/-- The ASCII characters that `bytes.fromhex` skips. -/
def isAsciiSpace (c : Char) : Bool := c = ' ' || (9 ≤ c.toNat && c.toNat ≤ 13)

/-- `bytes.fromhex(s)`; `none` is a `ValueError`. -/
def fromHex : Str → Option Bytes
  | [] => some []
  | [c] => if isAsciiSpace c then some [] else none
  | c :: d :: s =>
    if isAsciiSpace c then fromHex (d :: s)
    else match nibble c, nibble d with
      | some a, some b => (fromHex s).map (UInt8.ofNat (16 * a + b) :: ·)
      | _, _ => none

/-! ## Splitting -/

/-- `s.split()` -/
def words (rt : Runtime) (s : Str) : List Str := (s.splitOnP rt.isSpace).filter (· ≠ [])

/-- `s.partition(c)`: what stands before the first `c`, and what after it (nothing when there is no
`c`). -/
def partition (c : Char) : Str → Str × Str
  | [] => ([], [])
  | x :: xs => if x = c then ([], xs) else (x :: (partition c xs).1, (partition c xs).2)

/-- `s.rpartition(c)`: what stands before the last `c` (nothing when there is no `c`), and what
after it. -/
def rpartition (c : Char) (s : Str) : Str × Str :=
  if c ∈ s then ((partition c s.reverse).2.reverse, (partition c s.reverse).1.reverse) else ([], s)

/-- `s.split("://", 1)[1]`, when there is a `://`. -/
def afterScheme : Str → Option Str
  | [] => none
  | ':' :: '/' :: '/' :: s => some s
  | _ :: s => afterScheme s

/-! ## Endpoints -/

/-- `addr.strip("[]")` -/
def stripBrackets (addr : Str) : Str := stripWith (fun c => c = '[' || c = ']') addr

/-- `_tcp_address` -/
def tcpAddress (addr : Str) (port : Int) : Str :=
  let host := stripBrackets addr
  if ':' ∈ host ∧ '%' ∉ host then
    "tcp://[".toList ++ host ++ "]:".toList ++ intStr port
  else
    "tcp://".toList ++ addr ++ ":".toList ++ intStr port

/-- `_split_endpoint` -/
def splitEndpoint (rt : Runtime) (epStr : Str) : Except PyError (Str × Int) :=
  match afterScheme epStr with
  | none => .error .indexError
  | some ('[' :: s) => do
    let (host, remainder) := partition ']' s
    let port ← pyInt rt (remainder.dropWhile (· = ':'))
    return (host, port)
  | some s => do
    let (host, port) := rpartition ':' s
    let port ← pyInt rt port
    return ((partition '%' host).1, port)

end Zre
