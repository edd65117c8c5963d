import Zre.Proofs.Membership
import Zre.Proofs.RoundTrip

/-!
# Proofs: what counts as a beacon

`_handle_beacon` takes apart what `_build_beacon` puts together: a datagram is acted on exactly when it
is the beacon of some node in the same security mode. The one exception is the datagram that ends after
the magic bytes.
-/

namespace Zre

open Fallible

/-- The beacon version goes with the security mode: `start` sets v3 when Curve is on. -/
def Config.Moded (c : Config) : Prop :=
  c.beaconVersion = if c.curveSecret.isSome then Node.beaconVersionV3 else Node.beaconVersionV1

namespace Node

/-- `data` is what `_build_beacon` gives, in the security mode of `n`, for a node `uuid` with this port
and, in a v3 beacon, this key. -/
def BeaconOf (n : Node) (data uuid : Bytes) (port : Nat) (key : Option Bytes) : Prop :=
  ∃ m : Node, m.cfg.beaconVersion = n.cfg.beaconVersion ∧ m.cfg.peerId = uuid ∧
    (if n.cfg.beaconVersion = beaconVersionV3 then
      m.cfg.curvePublic = key ∧ ∃ k, key = some k ∧ k.length = 32
    else key = none) ∧
    m.buildBeacon port = .ok data

/-- A beacon is acted on as such, with its uuid, port and key; any other datagram is ignored. -/
def ReadsBeacon (env : Env) (n : Node) (data : Bytes) (host : Str) : Prop :=
  (∀ uuid port key, n.BeaconOf data uuid port key →
    n.handleBeacon env data host = n.acceptBeacon env uuid port key host) ∧
  ((¬ ∃ uuid port key, n.BeaconOf data uuid port key) → n.handleBeacon env data host = .ok n)

/-- The two bytes of a port. -/
def portBytes (port : Nat) : Bytes := [UInt8.ofNat (port / 256), UInt8.ofNat port]

/-- The key bytes at the end of a v3 beacon. -/
def keyBytes (key : Option Bytes) : Bytes := key.getD []

/-- The bytes of a beacon. -/
theorem beaconOf_iff {n : Node} (hmode : n.cfg.Moded) {data uuid : Bytes} {port : Nat}
    {key : Option Bytes} :
    n.BeaconOf data uuid port key ↔ uuid.length = 16 ∧ port < 65536 ∧
      (if n.cfg.beaconVersion = beaconVersionV3 then ∃ k, key = some k ∧ k.length = 32
        else key = none) ∧
      data = beaconMagic ++ [n.cfg.beaconVersion] ++ uuid ++ portBytes port ++ keyBytes key := by
  have hv : n.cfg.beaconVersion = beaconVersionV3 ∨ n.cfg.beaconVersion = beaconVersionV1 := by
    rw [hmode]
    split
    · exact Or.inl rfl
    · exact Or.inr rfl
  have hne : ¬ beaconVersionV1 = beaconVersionV3 := by decide
  constructor
  · rintro ⟨m, hver, rfl, hkey, hbuild⟩
    unfold buildBeacon at hbuild
    obtain ⟨p, hp, hbuild⟩ := bind_eq_ok_iff.1 hbuild
    have hport : port < 65536 := by
      by_contra hlt
      rw [packH, if_neg hlt] at hp
      cases hp
    rw [packH_ok hport] at hp
    cases hp
    rw [hver] at hbuild
    refine ⟨m.cfg.peerId_length, hport, ?_⟩
    rcases hv with hv | hv
    · rw [hv, if_pos rfl] at hkey hbuild
      obtain ⟨hpub, k, rfl, hk⟩ := hkey
      rw [hpub] at hbuild
      cases hbuild
      rw [hv, if_pos rfl]
      exact ⟨⟨k, rfl, hk⟩, rfl⟩
    · rw [hv, if_neg hne] at hkey hbuild
      subst hkey
      cases hbuild
      rw [hv, if_neg hne]
      exact ⟨rfl, by simp [keyBytes, portBytes]⟩
  · rintro ⟨hlen, hport, hkey, rfl⟩
    refine ⟨Node.init { n.cfg with peerId := uuid, peerId_length := hlen, curvePublic := key }, rfl, rfl,
      ?_, ?_⟩
    · split
      · rename_i h3
        rw [if_pos h3] at hkey
        exact ⟨rfl, hkey⟩
      · rename_i h3
        rw [if_neg h3] at hkey
        exact hkey
    · unfold buildBeacon
      rw [packH_ok hport, bind_ok]
      rcases hv with hv | hv
      · rw [hv, if_pos rfl] at hkey
        obtain ⟨k, rfl, hk⟩ := hkey
        simp only [init, hv, if_true]
        rfl
      · rw [hv, if_neg hne] at hkey
        subst hkey
        simp only [init, hv, if_neg hne]
        simp [keyBytes, portBytes]

/-- A slice that starts after `pre` and ends with `mid`. -/
theorem slice_at {data : Bytes} (pre mid post : Bytes) (hd : data = pre ++ mid ++ post) {i j : Nat}
    (hi : pre.length = i) (hj : i + mid.length = j) : slice data i j = mid := by
  subst hi
  subst hj
  rw [hd]
  exact slice_middle pre mid post

/-- A beacon is handled as what it says. -/
theorem handleBeacon_beacon (env : Env) {n : Node} (hrun : n.running = true) (hmode : n.cfg.Moded)
    {data uuid : Bytes} {port : Nat} {key : Option Bytes} (h : n.BeaconOf data uuid port key)
    (host : Str) : n.handleBeacon env data host = n.acceptBeacon env uuid port key host := by
  obtain ⟨hlen, hport, hkey, hdata⟩ := (beaconOf_iff hmode).1 h
  have hmagic : data.take 3 = beaconMagic := by rw [hdata]; simp [beaconMagic]
  have hbyte : byteAt data 3 = .ok n.cfg.beaconVersion := by rw [hdata]; simp [byteAt, beaconMagic]
  have huuid : slice data 4 20 = uuid := by
    refine slice_at (beaconMagic ++ [n.cfg.beaconVersion]) uuid (portBytes port ++ keyBytes key)
      (by rw [hdata]; simp) rfl ?_
    omega
  have hpbytes : slice data 20 22 = portBytes port := by
    refine slice_at (beaconMagic ++ [n.cfg.beaconVersion] ++ uuid) (portBytes port) (keyBytes key) hdata ?_ rfl
    simp [beaconMagic, hlen]
  have hunpack : unpackH (slice data 20 22) = .ok port := by rw [hpbytes]; exact unpackH_pack hport
  have htotal : data.length = 22 + (keyBytes key).length := by
    rw [hdata]
    simp only [List.length_append, hlen]
    rfl
  unfold handleBeacon
  rw [hrun]
  simp only [Bool.not_true, Bool.false_eq_true, if_false, hmagic, ne_eq, not_true, hbyte, bind_ok]
  have hv : n.cfg.beaconVersion = beaconVersionV3 ∨ n.cfg.beaconVersion = beaconVersionV1 := by
    rw [hmode]
    split
    · exact Or.inl rfl
    · exact Or.inr rfl
  rcases hv with hv | hv
  · rw [hv, if_pos rfl] at hkey
    obtain ⟨k, rfl, hk⟩ := hkey
    have hsize : beaconSize n.cfg.beaconVersion = some data.length := by
      rw [hv, htotal, keyBytes, Option.getD_some, hk]; rfl
    have hkslice : slice data 22 54 = k := by
      refine slice_at (beaconMagic ++ [n.cfg.beaconVersion] ++ uuid ++ portBytes port) k []
        (by rw [hdata, List.append_nil]; rfl) ?_ (by rw [hk])
      simp [beaconMagic, portBytes, hlen]
    rw [if_neg (by simp [hsize]), hunpack, bind_ok, huuid, if_pos hv, hkslice]
  · have hne : ¬ n.cfg.beaconVersion = beaconVersionV3 := by rw [hv]; decide
    rw [if_neg hne] at hkey
    subst hkey
    have hsize : beaconSize n.cfg.beaconVersion = some data.length := by rw [hv, htotal]; rfl
    rw [if_neg (by simp [hsize]), hunpack, bind_ok, huuid, if_neg hne]

/-- A datagram that is no beacon and is not cut off after the magic bytes is ignored. -/
theorem handleBeacon_other (env : Env) {n : Node} (hrun : n.running = true) (hmode : n.cfg.Moded)
    {data : Bytes} (hcut : data ≠ beaconMagic) (host : Str)
    (hno : ¬ ∃ uuid port key, n.BeaconOf data uuid port key) : n.handleBeacon env data host = .ok n := by
  unfold handleBeacon
  rw [hrun]
  simp only [Bool.not_true, Bool.false_eq_true, if_false]
  by_cases hmagic : data.take 3 = beaconMagic
  swap
  · rw [if_pos hmagic]
  rw [if_neg (by simpa using hmagic)]
  -- the version byte is there
  have hlong : 3 < data.length := by
    by_contra hshort
    rw [List.take_of_length_le (by omega)] at hmagic
    exact hcut hmagic
  rw [byteAt_returns hlong, bind_ok]
  split
  · rfl
  rename_i hsize
  split
  · rfl
  rename_i hver
  have hsize' : beaconSize data[3] = some data.length := not_not.1 hsize
  have hver' : data[3] = n.cfg.beaconVersion := not_not.1 hver
  -- a datagram of the right length and version is a beacon
  refine absurd ?_ hno
  have hlen22 : 22 ≤ data.length := by
    unfold beaconSize at hsize'
    split at hsize'
    · rw [← Option.some.inj hsize']; decide
    · split at hsize'
      · rw [← Option.some.inj hsize']
      · cases hsize'
  obtain ⟨a, b, hab⟩ : ∃ a b, slice data 20 22 = [a, b] := by
    have h2 : (slice data 20 22).length = 2 := slice_length hlen22
    match hs : slice data 20 22, h2 with
    | [a, b], _ => exact ⟨a, b, rfl⟩
  have hport : a.toNat * 256 + b.toNat < 65536 := by
    have ha := a.toNat_lt
    have hb := b.toNat_lt
    omega
  have hpbytes : portBytes (a.toNat * 256 + b.toNat) = [a, b] := by
    have hb := b.toNat_lt
    have h1 : (a.toNat * 256 + b.toNat) / 256 = a.toNat := by omega
    have h2 : UInt8.ofNat (a.toNat * 256 + b.toNat) = b := by
      apply UInt8.toNat_inj.1
      rw [UInt8.toNat_ofNat']
      omega
    rw [portBytes, h1, h2, UInt8.ofNat_toNat]
  have hsplit : data = beaconMagic ++ [data[3]] ++ slice data 4 20 ++ [a, b] ++ data.drop 22 := by
    have h3 : data.drop 3 = data[3] :: data.drop 4 := List.drop_eq_getElem_cons hlong
    have h4 : data.drop 4 = slice data 4 20 ++ data.drop 20 := by
      rw [slice, ← List.drop_drop (i := 16) (j := 4), List.take_append_drop]
    have h20 : data.drop 20 = slice data 20 22 ++ data.drop 22 := by
      rw [slice, ← List.drop_drop (i := 2) (j := 20), List.take_append_drop]
    calc data = data.take 3 ++ data.drop 3 := (List.take_append_drop 3 data).symm
      _ = beaconMagic ++ (data[3] :: (slice data 4 20 ++ (slice data 20 22 ++ data.drop 22))) := by
        rw [hmagic, h3, h4, h20]
      _ = _ := by rw [hab]; simp
  have huuid : (slice data 4 20).length = 16 := slice_length (by omega)
  unfold beaconSize at hsize'
  by_cases h3 : data[3] = beaconVersionV3
  · rw [if_pos h3] at hsize'
    have hlen := Option.some.inj hsize'
    refine ⟨slice data 4 20, _, some (data.drop 22), (beaconOf_iff hmode).2 ⟨huuid, hport, ?_, ?_⟩⟩
    · rw [if_pos (hver' ▸ h3)]
      exact ⟨_, rfl, by rw [List.length_drop, ← hlen]⟩
    · rw [hpbytes, ← hver']
      exact hsplit
  · rw [if_neg h3] at hsize'
    have h1 : data[3] = beaconVersionV1 := by
      by_contra h1
      rw [if_neg h1] at hsize'
      cases hsize'
    rw [if_pos h1] at hsize'
    have hlen := Option.some.inj hsize'
    refine ⟨slice data 4 20, _, none, (beaconOf_iff hmode).2 ⟨huuid, hport, ?_, ?_⟩⟩
    · rw [if_neg (hver' ▸ h3)]
    · rw [hpbytes, ← hver']
      have hrest : data.drop 22 = [] := List.drop_eq_nil_of_le (by omega)
      rw [hrest] at hsplit
      exact hsplit

/-- A running node reads the datagram as a beacon or ignores it, unless it ends after the magic bytes:
then the version byte is missing. -/
theorem Reachable.reads_beacon_iff {n : Node} (hn : n.Reachable) (hmode : n.cfg.Moded) (env : Env)
    (data : Bytes) (host : Str) : n.ReadsBeacon env data host ↔ data ≠ beaconMagic := by
  constructor
  · rintro ⟨-, hother⟩ rfl
    have hraises : n.handleBeacon env beaconMagic host = .error .indexError := by
      unfold handleBeacon
      rw [hn.running]
      rfl
    have hno : ¬ ∃ uuid port key, n.BeaconOf beaconMagic uuid port key := by
      rintro ⟨uuid, port, key, h⟩
      obtain ⟨hlen, -, -, hdata⟩ := (beaconOf_iff hmode).1 h
      have hlength := congrArg List.length hdata
      simp [beaconMagic, portBytes, hlen] at hlength
    rw [hother hno] at hraises
    cases hraises
  · intro hcut
    exact ⟨fun uuid port key h => handleBeacon_beacon env hn.running hmode h host,
      handleBeacon_other env hn.running hmode hcut host⟩

/-- The start-up node reads the beacon of the peer `00…02` on port 4002. -/
theorem reads_sampleBeacon : sampleA.ReadsBeacon (Env.calm 0)
    (beaconMagic ++ [beaconVersionV1] ++ sampleUuid ++ portBytes 4002) "10.0.0.2".toList :=
  (Reachable.reads_beacon_iff (Reachable.init sampleA.cfg) rfl (Env.calm 0) _ _).2 (by decide)

/-- The three magic bytes alone are not ignored. -/
theorem not_reads_every_beacon :
    ¬ ∀ (n : Node) (env : Env) (data : Bytes) (host : Str), n.Reachable → n.cfg.Moded →
      n.ReadsBeacon env data host := by
  intro hall
  have hreads := hall sampleA (Env.calm 0) beaconMagic "10.0.0.2".toList (Reachable.init sampleA.cfg) rfl
  have hno : ¬ ∃ uuid port key, sampleA.BeaconOf beaconMagic uuid port key := by
    rintro ⟨uuid, port, key, m, -, -, -, hbuild⟩
    unfold buildBeacon at hbuild
    obtain ⟨p, hp, hbuild⟩ := bind_eq_ok_iff.1 hbuild
    have hlen := m.cfg.peerId_length
    split at hbuild
    · split at hbuild
      · have hlength := congrArg List.length (Except.ok.inj hbuild)
        simp [beaconMagic] at hlength
      · cases hbuild
    · have hlength := congrArg List.length (Except.ok.inj hbuild)
      simp [beaconMagic] at hlength
  have hraises : sampleA.handleBeacon (Env.calm 0) beaconMagic "10.0.0.2".toList =
      .error .indexError := rfl
  rw [hreads.2 hno] at hraises
  cases hraises

end Node

end Zre
