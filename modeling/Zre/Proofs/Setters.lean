import Zre.Proofs.Returns
import Zre.Proofs.Secrets
import Zre.Proofs.Utf8
import Zre.Setup

/-!
# Proofs: setters that raise

Every setter but one tests its arguments before it writes. `set_zcert` writes the public key before it has seen
the secret one.
-/

namespace Zre

open Writing Fallible

/-- `z85.encode` writes the 32 bytes of a key as a text of 40 bytes. -/
def EncodesKeys (encode : Bytes → Except PyError Bytes) : Prop :=
  ∀ key, key.length = 32 → ∃ text : Str, encode key = .ok (encodeStr text) ∧ (encodeStr text).length = 40

namespace Setter

/-! ## Tests -/

variable {rt : Runtime} {encode : Bytes → Except PyError Bytes}

theorem reads_raise {α : Type} (e : PyError) : Reads (raise e : Setter α) := reads_throw _

theorem reads_lift {α : Type} (x : Except PyError α) : Reads (lift x) := by
  cases x with
  | ok a => exact reads_pure a
  | error e => exact reads_raise e

theorem reads_ensureNotRunning : Reads ensureNotRunning := by
  refine reads_get.bind fun s => ?_
  split
  · exact reads_throw _
  · exact reads_pure _

theorem reads_number (value : Value) : Reads (number value) := by
  cases value <;> first | exact reads_pure _ | exact reads_raise _

theorem reads_rawOf (value : Value) : Reads (rawOf value) := by
  cases value <;> first | exact reads_pure _ | exact reads_raise _

theorem reads_wireValue (value : Value) : Reads (wireValue value) :=
  (reads_rawOf value).bind fun _ => reads_lift _

theorem reads_uuidOf (value : Value) : Reads (uuidOf value) := by
  cases value with
  | str s =>
    simp only [uuidOf]
    split
    · exact reads_pure _
    · exact reads_raise _
  | bytes b => exact reads_pure b
  | int n => exact reads_raise _
  | none => exact reads_raise _

theorem reads_startsWithTcp (value : Value) : Reads (startsWithTcp value) := by
  cases value with
  | str s =>
    simp only [startsWithTcp]
    split
    · exact reads_pure _
    · exact reads_raise _
  | bytes b => exact reads_raise _
  | int n => exact reads_throw _
  | none => exact reads_throw _

/-! ## Setters that test first -/

/-- The fields that say whether the node is secure. -/
def security (s : Setup) : Bool × UInt8 × Option Bytes × Option Bytes :=
  (s.running, s.beaconVersion, s.curvePublic, s.curveSecret)

theorem guarded_raise (e : PyError) : Guarded security (raise e : Setter PUnit) := (reads_raise e).guarded

theorem guarded_setUuid (value : Value) : Guarded security (setUuid value) := by
  refine reads_ensureNotRunning.bind_guarded fun _ => (reads_uuidOf value).bind_guarded fun raw => ?_
  split
  · refine guarded_ite (guarded_raise _) ?_
    refine Guarded.bind_succeeds (guarded_modify ?_) (fun _ => succeeds_modify _) ?_
    · exact fun _ => rfl
    · exact fun _ _ => rfl
  · exact guarded_raise _

theorem guarded_setPort (port : Value) : Guarded security (setPort port) :=
  reads_ensureNotRunning.bind_guarded fun _ => (reads_number port).bind_guarded fun _ =>
    guarded_ite (guarded_modify fun _ => rfl) (guarded_raise _)

theorem guarded_setInterval (intervalMs : Value) : Guarded security (setInterval intervalMs) :=
  reads_ensureNotRunning.bind_guarded fun _ => (reads_number intervalMs).bind_guarded fun _ =>
    guarded_ite (guarded_raise _) (guarded_ite (reads_throw _).guarded (guarded_modify fun _ => rfl))

theorem guarded_setBeaconPeerPort (port : Value) : Guarded security (setBeaconPeerPort port) :=
  reads_ensureNotRunning.bind_guarded fun _ => (reads_number port).bind_guarded fun _ =>
    guarded_ite (guarded_modify fun _ => rfl) (guarded_raise _)

theorem guarded_setAdvertisedEndpoint (endpoint : Value) :
    Guarded security (setAdvertisedEndpoint rt endpoint) :=
  reads_ensureNotRunning.bind_guarded fun _ => (reads_startsWithTcp endpoint).bind_guarded fun _ =>
    (reads_lift _).bind_guarded fun _ => (reads_wireValue endpoint).bind_guarded fun _ =>
      guarded_modify fun _ => rfl

theorem guarded_setZapDomain (domain : Value) : Guarded security (setZapDomain domain) :=
  reads_ensureNotRunning.bind_guarded fun _ => guarded_ite (guarded_modify fun _ => rfl) (guarded_raise _)

theorem guarded_setHeader (key value : Value) : Guarded security (setHeader key value) :=
  (reads_wireValue key).bind_guarded fun _ => (reads_wireValue value).bind_guarded fun _ =>
    guarded_modify fun _ => rfl

/-! ## The key pair -/

/-- The key that an argument stands for, if it is accepted. -/
def keyOf (rt : Runtime) : Value → Option Bytes
  | .str s => Node.curveKeyRaw rt (encodeStr s)
  | .bytes b => Node.curveKeyRaw rt b
  | _ => none

theorem exec_curveKey_some {value : Value} {key : Bytes} (h : keyOf rt value = some key) (s : Setup) :
    exec (curveKey rt value) s = (.ok key, s) := by
  have hraw : ∃ raw, Node.curveKeyRaw rt raw = some key ∧ rawOf value = pure raw := by
    cases value with
    | str t => exact ⟨_, h, rfl⟩
    | bytes b => exact ⟨_, h, rfl⟩
    | int n => cases h
    | none => cases h
  obtain ⟨raw, hkey, hraw⟩ := hraw
  rw [curveKey, hraw, exec_bind, exec_pure]
  simp only [hkey, exec_pure]

theorem exec_curveKey_none {value : Value} (h : keyOf rt value = none) (s : Setup) :
    ∃ e, exec (curveKey rt value) s = (.error e, s) := by
  have hraw : ∀ raw, Node.curveKeyRaw rt raw = none → rawOf value = pure raw →
      ∃ e, exec (curveKey rt value) s = (.error e, s) := by
    intro raw hkey hraw
    rw [curveKey, hraw, exec_bind, exec_pure]
    simp only [hkey]
    exact ⟨_, rfl⟩
  cases value with
  | str t => exact hraw _ h rfl
  | bytes b => exact hraw _ h rfl
  | int n => exact ⟨_, rfl⟩
  | none => exact ⟨_, rfl⟩

theorem exec_ensureNotRunning {s : Setup} (h : s.running = false) : exec ensureNotRunning s = (.ok ⟨⟩, s) := by
  rw [ensureNotRunning, exec_bind, exec_get]
  simp only [h, Bool.false_eq_true, if_false, exec_pure]

/-- `set_header` with two short strings. -/
theorem exec_setHeader (s : Setup) {key value : Bytes} (hk : key.length ≤ maxStringBytes)
    (hv : value.length ≤ maxStringBytes) :
    exec (setHeader (.bytes key) (.bytes value)) s = (.ok ⟨⟩, { s with headers := s.headers.set key value }) := by
  have hwire : ∀ {b : Bytes} (hb : b.length ≤ maxStringBytes) (s : Setup),
      exec (wireValue (.bytes b)) s = (.ok ⟨b, hb⟩, s) := by
    intro b hb s
    rw [wireValue, rawOf, exec_bind, exec_pure]
    simp only [wireString, hb, dite_true, lift, exec_pure]
  rw [setHeader, exec_bind, hwire hk]
  simp only [exec_bind, hwire hv, exec_modify]

/-- What `set_zcert` leaves behind: nothing, the public key alone, or both keys and the header. -/
theorem exec_setZcert (henc : EncodesKeys encode) (hrt : Node.DecodesKeys rt) {s : Setup} (hs : s.running = false)
    (publicKey secretKey : Value) :
    (keyOf rt publicKey = none ∧ ∃ e, exec (setZcert rt encode publicKey secretKey) s = (.error e, s)) ∨
    (∃ p, keyOf rt publicKey = some p ∧ keyOf rt secretKey = none ∧
      ∃ e, exec (setZcert rt encode publicKey secretKey) s = (.error e, { s with curvePublic := some p })) ∨
    ∃ p k headers, keyOf rt publicKey = some p ∧ keyOf rt secretKey = some k ∧ p.length = 32 ∧
      exec (setZcert rt encode publicKey secretKey) s =
        (.ok ⟨⟩, { s with curvePublic := some p, curveSecret := some k, headers }) := by
  have hlen : ∀ {value : Value} {key : Bytes}, keyOf rt value = some key → key.length = 32 := by
    intro value key hkey
    cases value with
    | str t => exact Node.curveKeyRaw_length hrt hkey
    | bytes b => exact Node.curveKeyRaw_length hrt hkey
    | int n => cases hkey
    | none => cases hkey
  rw [setZcert, exec_bind, exec_ensureNotRunning hs]
  cases hpub : keyOf rt publicKey with
  | none =>
    obtain ⟨e, he⟩ := exec_curveKey_none hpub s
    refine Or.inl ⟨rfl, e, ?_⟩
    simp only [exec_bind, he]
  | some p =>
    right
    simp only [exec_bind, exec_curveKey_some hpub, exec_modify]
    cases hsec : keyOf rt secretKey with
    | none =>
      obtain ⟨e, he⟩ := exec_curveKey_none hsec { s with curvePublic := some p }
      refine Or.inl ⟨p, rfl, rfl, e, ?_⟩
      simp only [he]
    | some k =>
      obtain ⟨text, htext, hlength⟩ := henc p (hlen hpub)
      refine Or.inr ⟨p, k, s.headers.set Node.publicKeyHeader (encodeStr text), rfl, rfl, hlen hpub, ?_⟩
      simp only [exec_curveKey_some hsec, htext, lift, exec_pure]
      exact exec_setHeader _ (by decide) (by rw [hlength]; decide)

end Setter

namespace Setup

open Setter

variable {rt : Runtime} {encode : Bytes → Except PyError Bytes} {domainOption : Value → Except PyError PUnit}
  {s : Setup} {c : Call}

/-- The call does not give a new public key together with a secret key that is refused. -/
def Whole (rt : Runtime) (s : Setup) : Call → Prop
  | .setZcert publicKey secretKey =>
    keyOf rt publicKey = none ∨ keyOf rt secretKey ≠ none ∨ keyOf rt publicKey = s.curvePublic
  | _ => True

theorem raises_eq_some {e : SetupError} (h : s.raises rt encode c = some e) :
    exec (c.setter rt encode) s = (.error e, s.after rt encode c) := by
  unfold raises at h
  unfold after
  rcases hx : exec (c.setter rt encode) s with ⟨_ | a, s'⟩
  · rw [hx] at h
    cases h
    rfl
  · rw [hx] at h
    cases h

/-- What a call of `set_zcert` does. -/
theorem setZcert_cases (henc : EncodesKeys encode) (hrt : Node.DecodesKeys rt) (hs : s.running = false)
    {publicKey secretKey : Value} (hc : c = .setZcert publicKey secretKey) :
    (keyOf rt publicKey = none ∧ s.after rt encode c = s) ∨
    (∃ p e, keyOf rt publicKey = some p ∧ keyOf rt secretKey = none ∧ s.raises rt encode c = some e ∧
      s.after rt encode c = { s with curvePublic := some p }) ∨
    ∃ p k headers, keyOf rt publicKey = some p ∧ keyOf rt secretKey = some k ∧ p.length = 32 ∧
      s.raises rt encode c = none ∧
      s.after rt encode c = { s with curvePublic := some p, curveSecret := some k, headers } := by
  subst hc
  unfold raises after Call.setter
  rcases exec_setZcert henc hrt hs publicKey secretKey with
    ⟨hpub, e, he⟩ | ⟨p, hpub, hsec, e, he⟩ | ⟨p, k, headers, hpub, hsec, hlen, hok⟩
  · exact Or.inl ⟨hpub, by rw [he]⟩
  · exact Or.inr (Or.inl ⟨p, e, hpub, hsec, by rw [he], by rw [he]⟩)
  · exact Or.inr (Or.inr ⟨p, k, headers, hpub, hsec, hlen, by rw [hok], by rw [hok]⟩)

/-- All calls but those of `set_zcert`. -/
theorem guarded_setter (hc : ∀ publicKey secretKey, c ≠ .setZcert publicKey secretKey) :
    Guarded security (c.setter rt encode) := by
  cases c with
  | setUuid value => exact guarded_setUuid value
  | setPort port => exact guarded_setPort port
  | setInterval intervalMs => exact guarded_setInterval intervalMs
  | setBeaconPeerPort port => exact guarded_setBeaconPeerPort port
  | setAdvertisedEndpoint endpoint => exact guarded_setAdvertisedEndpoint endpoint
  | setZcert publicKey secretKey => exact absurd rfl (hc publicKey secretKey)
  | setZapDomain domain => exact guarded_setZapDomain domain
  | setHeader key value => exact guarded_setHeader key value

/-- Before `start()`, a node has both keys or none. -/
structure Paired (s : Setup) : Prop where
  running : s.running = false
  version : s.beaconVersion = Node.beaconVersionV1
  pair : s.curvePublic.isSome = true ↔ s.curveSecret.isSome = true
  length : ∀ p, s.curvePublic = some p → p.length = 32

/-- Exactly the calls that do not tear the key pair apart leave no trace when they raise. -/
theorem atomic_iff (hrt : Node.DecodesKeys rt) (henc : EncodesKeys encode) (hs : s.running = false) (c : Call) :
    (∀ e, s.raises rt encode c = some e → s.after rt encode c = s) ↔ s.Whole rt c := by
  by_cases hc : ∃ publicKey secretKey, c = .setZcert publicKey secretKey
  · obtain ⟨publicKey, secretKey, rfl⟩ := hc
    rcases setZcert_cases henc hrt hs rfl with
      ⟨hpub, hafter⟩ | ⟨p, e, hpub, hsec, hraises, hafter⟩ | ⟨p, k, headers, -, hsec, -, hraises, -⟩
    · exact iff_of_true (fun _ _ => hafter) (Or.inl hpub)
    · change _ ↔ keyOf rt publicKey = none ∨ keyOf rt secretKey ≠ none ∨ keyOf rt publicKey = s.curvePublic
      rw [hpub, hsec, hafter]
      constructor
      · intro hall
        exact Or.inr (Or.inr (congrArg Setup.curvePublic (hall e hraises)))
      · rintro (h | h | h) _ _
        · cases h
        · exact absurd rfl h
        · rw [h]
    · refine iff_of_true (fun e he => ?_) (Or.inr (Or.inl (by rw [hsec]; simp)))
      rw [hraises] at he
      cases he
  · push Not at hc
    have hwhole : s.Whole rt c := by
      cases c with
      | setZcert publicKey secretKey => exact absurd rfl (hc publicKey secretKey)
      | _ => trivial
    exact iff_of_true (fun e he => (guarded_setter hc).atomic s e _ (raises_eq_some he)) hwhole

theorem Paired.init (peerId : Bytes) (h : peerId.length = 16) : Paired (Setup.init peerId h) :=
  ⟨rfl, rfl, by simp [Setup.init], fun p hp => by cases hp⟩

/-- The pair of keys depends on a few fields only. -/
theorem Paired.congr {s' : Setup} (h : Paired s) (hs : security s' = security s) : Paired s' := by
  simp only [security, Prod.mk.injEq] at hs
  obtain ⟨hrun, hversion, hpub, hsec⟩ := hs
  constructor
  · exact hrun.trans h.running
  · exact hversion.trans h.version
  · rw [hpub, hsec]
    exact h.pair
  · rw [hpub]
    exact h.length

theorem Paired.after (hrt : Node.DecodesKeys rt) (henc : EncodesKeys encode) (h : Paired s) (hc : s.Whole rt c) :
    Paired (s.after rt encode c) := by
  by_cases hz : ∃ publicKey secretKey, c = .setZcert publicKey secretKey
  · obtain ⟨publicKey, secretKey, rfl⟩ := hz
    rcases setZcert_cases henc hrt h.running rfl with
      ⟨-, hafter⟩ | ⟨p, e, -, -, hraises, -⟩ | ⟨p, k, headers, -, -, hlen, -, hafter⟩
    · rw [hafter]
      exact h
    · have hkeep := (atomic_iff hrt henc h.running _).2 hc e hraises
      rw [hkeep]
      exact h
    · rw [hafter]
      refine ⟨h.running, h.version, by simp, fun q hq => ?_⟩
      cases hq
      exact hlen
  · push Not at hz
    exact h.congr ((guarded_setter hz).keeps s)

theorem RunBy.paired (hrt : Node.DecodesKeys rt) (henc : EncodesKeys encode) (h : RunBy rt encode (Whole rt) s) :
    Paired s := by
  induction h with
  | init peerId h => exact Paired.init peerId h
  | call _ hp ih => exact ih.after hrt henc hp

/-! ## Who takes the node for a secure one -/

/-- `start()`, `_build_beacon` and `_gossip_publish_endpoint` agree on whether the node is secure. -/
structure Agrees (rt : Runtime) (encode : Bytes → Except PyError Bytes) (domainOption : Value → Except PyError PUnit)
    (s : Setup) : Prop where
  /-- The beacons of a secure node are those of version 3, which are longer by the key. -/
  start : (s.curveSecret.isSome = true → domainOption s.zapDomain = .ok ⟨⟩) →
    ∀ (name : WireString) (inboxPort : Nat), ∃ cfg, s.start rt domainOption name inboxPort = .ok cfg ∧
      (cfg.beaconVersion = Node.beaconVersionV3 ↔ s.curveSecret.isSome = true) ∧
      ∀ port, port < 65536 → ∃ data, (Node.init cfg).buildBeacon port = .ok data ∧
        data.length = if s.curveSecret.isSome then 54 else 22
  /-- The tuple of a secure node has its key behind the endpoint. -/
  gossip : ∀ base, ∃ key, s.gossipPublishEndpoint encode base =
    .ok (if s.curveSecret.isSome then base ++ '|' :: key else base)

theorem Paired.agrees (henc : EncodesKeys encode) (h : Paired s) : s.Agrees rt encode domainOption := by
  have hplen := s.peerId_length
  cases hpub : s.curvePublic with
  | none =>
    have hsec : s.curveSecret = none := by
      have := h.pair
      rw [hpub] at this
      simpa using this
    constructor
    · intro _ name inboxPort
      refine ⟨_, by rw [Setup.start, startVersion, hsec]; rfl, ?_, ?_⟩
      · simp only [hsec, h.version]
        decide
      · intro port hport
        refine ⟨_, by simp only [Node.buildBeacon, Node.init, packH, hport, if_true, h.version]; rfl, ?_⟩
        simp [hsec, Config.plain, hplen, Node.beaconMagic]
    · intro base
      refine ⟨[], ?_⟩
      rw [gossipPublishEndpoint, hpub, hsec]
      rfl
  | some p =>
    have hlen := h.length p hpub
    obtain ⟨k, hsec⟩ := Option.isSome_iff_exists.1 (h.pair.1 (by rw [hpub]; rfl))
    constructor
    · intro hdomain name inboxPort
      have htakes := hdomain (by rw [hsec]; rfl)
      refine ⟨_, by rw [Setup.start, startVersion, hsec, hpub, htakes]; rfl, ?_, ?_⟩
      · simp [hsec]
      · intro port hport
        refine ⟨_, by simp only [Node.buildBeacon, Node.init, packH, hport, if_true]; rfl, ?_⟩
        simp [hsec, Config.plain, hplen, hlen, Node.beaconMagic]
    · intro base
      obtain ⟨text, htext, -⟩ := henc p hlen
      refine ⟨text, ?_⟩
      simp only [gossipPublishEndpoint, hpub, hsec, htext, bind_ok, decodeStrict_encodeStr, pure_eq_ok]
      rfl

/-- As long as no call gives a new public key together with a secret key that is refused, both keys are set or none
is, and everybody agrees on whether the node is secure; and of the next calls exactly those that are not of this
kind leave no trace when they raise. -/
theorem RunBy.all_or_nothing (hrt : Node.DecodesKeys rt) (henc : EncodesKeys encode)
    (h : RunBy rt encode (Whole rt) s) :
    (s.curvePublic.isSome = true ↔ s.curveSecret.isSome = true) ∧ s.Agrees rt encode domainOption ∧
      ∀ c, (∀ e, s.raises rt encode c = some e → s.after rt encode c = s) ↔ s.Whole rt c :=
  have hpaired := h.paired hrt henc
  ⟨hpaired.pair, hpaired.agrees henc, atomic_iff hrt henc hpaired.running⟩

/-! ## A key pair -/

/-- The digits of z85. -/
def z85Digits : Str :=
  "0123456789abcdefghijklmnopqrstuvwxyzABCDEFGHIJKLMNOPQRSTUVWXYZ.-:+=^!/*?&<>()[]\x7b\x7d@%$#".toList

/-- Four bytes as five digits. -/
def z85Word (n : Nat) : Str :=
  [n / 52200625, n / 614125 % 85, n / 7225 % 85, n / 85 % 85, n % 85].map fun d => z85Digits.getD d '0'

/-- `z85.encode` -/
def z85Encode : Bytes → Except PyError Bytes
  | [] => .ok []
  | a :: b :: c :: d :: rest => do
    let n ← unpackI [a, b, c, d]
    return encodeStr (z85Word n) ++ (← z85Encode rest)
  | _ => .error .valueError

theorem z85Word_ascii {n : Nat} {c : Char} (hc : c ∈ z85Word n) : c.toNat < 128 := by
  have hdigits : ('0' :: z85Digits).all (fun c => decide (c.toNat < 128)) = true := by decide +kernel
  obtain ⟨d, -, rfl⟩ := List.mem_map.1 hc
  have hmem : z85Digits.getD d '0' ∈ '0' :: z85Digits := by
    rw [List.getD_eq_getElem?_getD]
    cases h : z85Digits[d]? with
    | none => exact List.mem_cons_self
    | some x => exact List.mem_cons_of_mem _ (List.mem_of_getElem? h)
  exact of_decide_eq_true (List.all_eq_true.1 hdigits _ hmem)

theorem z85Encode_words {k : Nat} {b : Bytes} (h : b.length = 4 * k) :
    ∃ text : Str, z85Encode b = .ok (encodeStr text) ∧ text.length = 5 * k ∧ ∀ c ∈ text, c.toNat < 128 := by
  induction k generalizing b with
  | zero =>
    rw [List.length_eq_zero_iff.1 h]
    exact ⟨[], rfl, rfl, by simp⟩
  | succ k ih =>
    match b, h with
    | w :: x :: y :: z :: rest, h =>
      have hrest : rest.length = 4 * k := by
        simp only [List.length_cons] at h
        omega
      obtain ⟨text, htext, hlen, hascii⟩ := ih hrest
      refine ⟨z85Word (w.toNat * 16777216 + x.toNat * 65536 + y.toNat * 256 + z.toNat) ++ text, ?_, ?_, ?_⟩
      · rw [z85Encode, unpackI, bind_ok, htext, bind_ok, pure_eq_ok]
        exact congrArg Except.ok List.flatMap_append.symm
      · rw [List.length_append, hlen]
        simp only [z85Word, List.length_map, List.length_cons, List.length_nil]
        omega
      · intro c hc
        exact (List.mem_append.1 hc).elim z85Word_ascii (hascii c)

theorem z85Encode_encodesKeys : EncodesKeys z85Encode := by
  intro key hkey
  obtain ⟨text, htext, hlen, hascii⟩ := z85Encode_words (k := 8) hkey
  exact ⟨text, htext, by rw [encodeStr_ascii_length hascii, hlen]⟩

theorem ascii_decodesKeys : Node.DecodesKeys Runtime.ascii := fun _ _ _ h => by cases h

/-- A ZAP domain that is no text is refused. -/
def textDomain : Value → Except PyError PUnit
  | .str _ => .ok ⟨⟩
  | _ => .error .typeError

def sampleId : Bytes := List.replicate 16 7

theorem sampleId_length : sampleId.length = 16 := rfl

/-- A new node. -/
def sample : Setup := Setup.init sampleId sampleId_length

/-- Two keys of 32 bytes, and one that is too short. -/
def samplePublic : Value := .bytes (List.replicate 32 1)

def sampleSecret : Value := .bytes (List.replicate 32 2)

def sampleShort : Value := .bytes (List.replicate 31 2)

/-- The node with a key pair. -/
def sampleKeyed : Setup := sample.after Runtime.ascii z85Encode (.setZcert samplePublic sampleSecret)

theorem all_or_nothing_sample :
    (sampleKeyed.curvePublic.isSome = true ↔ sampleKeyed.curveSecret.isSome = true) ∧
      sampleKeyed.Agrees Runtime.ascii z85Encode textDomain := by
  have hrun : RunBy Runtime.ascii z85Encode (Whole Runtime.ascii) sampleKeyed :=
    .call (.init _ rfl) (Or.inr (Or.inl (by decide +kernel)))
  obtain ⟨hpair, hagrees, -⟩ := hrun.all_or_nothing ascii_decodesKeys z85Encode_encodesKeys
  exact ⟨hpair, hagrees⟩

/-- A short secret key is refused when the public key has already been set. -/
theorem not_all_or_nothing : ¬ ∀ s, RunBy Runtime.ascii z85Encode (fun _ _ => True) s →
    (∀ c e, s.raises Runtime.ascii z85Encode c = some e → s.after Runtime.ascii z85Encode c = s) ∧
      (s.curvePublic.isSome = true ↔ s.curveSecret.isSome = true) := by
  intro hall
  have hpair := (hall _ (.call (c := .setZcert samplePublic sampleShort)
    (.init sampleId sampleId_length) trivial)).2
  revert hpair
  decide +kernel

end Setup

end Zre
