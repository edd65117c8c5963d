import Zre.Broadcast
import Zre.Lib.Fallible
import Zre.Proofs.Endpoints

/-!
# Proofs: the subnets that beacons reach

A line of the routing table has the mask of its route. Laid over the address of the interface it gives the
broadcast address of a subnet that the interface may have nothing to do with.
-/

namespace Zre

open Fallible

theorem inetNtoa_injective (lan : Lan) {a b : BitVec 32} (h : inetNtoa a = inetNtoa b) : a = b := by
  have ha := lan.aton_ntoa a
  rw [h, lan.aton_ntoa b] at ha
  exact (Option.some.inj ha).symm

theorem inetNtoa_ne_nil (a : BitVec 32) : inetNtoa a ≠ [] := by
  unfold inetNtoa
  simp

namespace Lan

variable {lan : Lan} {ip mask : Str → BitVec 32} {iface : Str} {route : Route} {l : List Str} {b : Str}

/-- The lines of the routing table that have enough fields. -/
def routes (lan : Lan) : List Route :=
  ((lan.routeLines.getD []).drop 1).filterMap fun line => Route.ofFields (words lan.rt line)

/-- The interfaces that the routing table names. -/
def interfaces (lan : Lan) : List Str := lan.routes.map Route.iface

/-- Every interface of the routing table has an address and a netmask, and the lookups find them. -/
structure Assigns (lan : Lan) (ip mask : Str → BitVec 32) : Prop where
  sockets : lan.udpSocket false = true
  address : ∀ iface ∈ lan.interfaces, lan.interfaceAddress iface = some (inetNtoa (ip iface))
  netmask : ∀ iface ∈ lan.interfaces, lan.interfaceNetmask iface = some (mask iface)

/-- The text of an interface's address. A name that reads as an address is taken for one. -/
def ipText (lan : Lan) (ip : Str → BitVec 32) (iface : Str) : Str :=
  if lan.inetAton iface then iface else inetNtoa (ip iface)

/-- The address that `ipText` is the text of. -/
def ipOf (lan : Lan) (ip : Str → BitVec 32) (iface : Str) : BitVec 32 := (lan.aton iface).getD (ip iface)

/-- The broadcast address of the subnet of a named interface, which is the one that is computed when the interface
is pinned. -/
def OwnBroadcast (lan : Lan) (ip mask : Str → BitVec 32) (b : Str) : Prop :=
  ∃ j ∈ lan.interfaces, b = inetNtoa (Subnet.last (lan.ipOf ip j) (mask j)) ∧
    lan.interfaceBroadcast (some j) = .ok b

/-- A line that is not skipped, and its mask. -/
structure Uses (lan : Lan) (ip : Str → BitVec 32) (route : Route) (m : BitVec 32) : Prop where
  listed : route ∈ lan.routes
  iface : route.iface ≠ "lo".toList
  destination : route.destination ≠ "00000000".toList
  number : ∃ k, pyIntHex lan.rt route.mask = .ok k ∧ k ≠ 0
  mask : lineMask route.mask = .ok m
  abroad : ¬ "127.".toList.isPrefixOf (lan.ipText ip route.iface) = true

/-! ## One interface -/

theorem ofFields_iface {fields : List Str} (h : Route.ofFields fields = some route) : route.iface ∈ fields := by
  unfold Route.ofFields at h
  split at h
  · cases h
    exact List.mem_cons_self
  · cases h

theorem iface_ne_nil (h : iface ∈ lan.interfaces) : iface ≠ [] := by
  obtain ⟨route, hroute, rfl⟩ := List.mem_map.1 h
  obtain ⟨line, -, hfields⟩ := List.mem_filterMap.1 hroute
  have hword := ofFields_iface hfields
  unfold words at hword
  simpa using (List.mem_filter.1 hword).2

theorem resolveIp_eq (h : lan.Assigns ip mask) (hi : iface ∈ lan.interfaces) :
    lan.resolveIp iface = .ok (lan.ipText ip iface) := by
  unfold resolveIp ipText
  rw [if_neg (iface_ne_nil hi), h.address iface hi, h.sockets]
  split <;> rfl

theorem ipText_ne_nil (hi : iface ∈ lan.interfaces) : lan.ipText ip iface ≠ [] := by
  unfold ipText
  split
  · exact iface_ne_nil hi
  · exact inetNtoa_ne_nil _

theorem aton_ipText (lan : Lan) (ip : Str → BitVec 32) (iface : Str) :
    lan.aton (lan.ipText ip iface) = some (lan.ipOf ip iface) := by
  unfold ipText ipOf
  rw [lan.inetAton_eq]
  cases h : lan.aton iface with
  | none => exact lan.aton_ntoa _
  | some a => exact h

theorem packedIp_ipText (lan : Lan) (ip : Str → BitVec 32) (iface : Str) :
    lan.packedIp (lan.ipText ip iface) = .ok (lan.ipOf ip iface) := by
  unfold packedIp
  rw [aton_ipText]

/-- `_interface_broadcast` gives the last address of the interface's own subnet. -/
theorem interfaceBroadcast_eq (h : lan.Assigns ip mask) (hi : iface ∈ lan.interfaces) :
    lan.interfaceBroadcast (some iface) = .ok (inetNtoa (Subnet.last (lan.ipOf ip iface) (mask iface))) := by
  unfold interfaceBroadcast
  simp only [if_neg (iface_ne_nil hi), resolveIp_eq h hi, bind_ok, if_neg (ipText_ne_nil hi), h.sockets,
    h.netmask iface hi, packedIp_ipText]
  rfl

theorem ownBroadcast_iff (h : lan.Assigns ip mask) (a : BitVec 32) :
    lan.OwnBroadcast ip mask (inetNtoa a) ↔ ∃ j ∈ lan.interfaces, a = Subnet.last (lan.ipOf ip j) (mask j) := by
  constructor
  · rintro ⟨j, hj, heq, -⟩
    exact ⟨j, hj, inetNtoa_injective lan heq⟩
  · rintro ⟨j, hj, rfl⟩
    exact ⟨j, hj, rfl, interfaceBroadcast_eq h hj⟩

/-! ## The table -/

/-- The `try` block, where the lookups succeed. -/
theorem lineBroadcast_eq_some_iff (h : lan.Assigns ip mask) (hi : route.iface ∈ lan.interfaces) :
    lan.lineBroadcast route = .ok (some b) ↔
      ¬ "127.".toList.isPrefixOf (lan.ipText ip route.iface) = true ∧ ∃ m, lineMask route.mask = .ok m ∧
        b = inetNtoa (Subnet.last (lan.ipOf ip route.iface) m) := by
  unfold lineBroadcast
  rw [resolveIp_eq h hi, bind_ok]
  simp only [ipText_ne_nil hi, false_or]
  by_cases hloop : "127.".toList.isPrefixOf (lan.ipText ip route.iface) = true
  · rw [if_pos hloop]
    exact iff_of_false (by simp) fun hno => hno.1 hloop
  · rw [if_neg hloop, packedIp_ipText, bind_ok, bind_eq_ok_iff, and_iff_right hloop]
    simp only [pure_eq_ok, Except.ok.injEq, Option.some.injEq, eq_comm]

/-- What a line that is not skipped contributes. -/
theorem readLine_eq_some_iff (h : lan.Assigns ip mask) {line : Str} (hlisted : ∀ route,
    Route.ofFields (words lan.rt line) = some route → route ∈ lan.routes) :
    lan.readLine line = .ok (some b) ↔ ∃ route m, Route.ofFields (words lan.rt line) = some route ∧
      lan.Uses ip route m ∧ b = inetNtoa (Subnet.last (lan.ipOf ip route.iface) m) := by
  unfold readLine
  cases hfields : Route.ofFields (words lan.rt line) with
  | none => simp
  | some route =>
    have hroute := hlisted route hfields
    have hi : route.iface ∈ lan.interfaces := List.mem_map_of_mem hroute
    have hblock := lineBroadcast_eq_some_iff (b := b) h hi
    simp only []
    constructor
    · intro hread
      split at hread
      · cases hread
      · rename_i hskip
        push Not at hskip
        obtain ⟨k, hk, hread⟩ := bind_eq_ok_iff.1 hread
        split at hread
        · cases hread
        · rename_i hzero
          have hok : lan.lineBroadcast route = .ok (some b) := by
            split at hread
            · cases hread
            · cases hread
            · cases hread
            · rename_i broadcast hb
              cases hread
              exact hb
          obtain ⟨habroad, m, hm, hb⟩ := hblock.1 hok
          exact ⟨route, m, rfl, ⟨hroute, hskip.1, hskip.2, ⟨k, hk, hzero⟩, hm, habroad⟩, hb⟩
    · rintro ⟨route', m, hsome, huse, hb⟩
      cases hsome
      obtain ⟨k, hk, hzero⟩ := huse.number
      have hskip : ¬ (route.iface = "lo".toList ∨ route.destination = "00000000".toList) := by
        rintro (he | he)
        · exact huse.iface he
        · exact huse.destination he
      rw [if_neg hskip, hk, bind_ok, if_neg hzero, hblock.2 ⟨huse.abroad, m, huse.mask, hb⟩]
      rfl

theorem mem_addBroadcast {found : List Str} {x : Option Str} :
    b ∈ addBroadcast found x ↔ b ∈ found ∨ x = some b := by
  unfold addBroadcast
  cases x with
  | none => simp
  | some c =>
    simp only [Option.some.injEq]
    split
    · rename_i hc
      exact ⟨Or.inl, fun h => h.elim id fun e => e ▸ hc⟩
    · rw [List.mem_append, List.mem_singleton, eq_comm]

theorem nodup_addBroadcast {found : List Str} (hf : found.Nodup) (x : Option Str) : (addBroadcast found x).Nodup := by
  unfold addBroadcast
  cases x with
  | none => exact hf
  | some c =>
    simp only []
    split
    · exact hf
    · rename_i hc
      exact List.nodup_append.2 ⟨hf, List.nodup_singleton c, fun a ha b hb => fun e => hc (by simp_all)⟩

/-- The loop collects what the lines contribute, each address once. -/
theorem collects {lines found : List Str} (hf : found.Nodup)
    (hl : lines.foldlM (fun found line => do return addBroadcast found (← lan.readLine line)) found = .ok l) :
    l.Nodup ∧ ∀ b, b ∈ l ↔ b ∈ found ∨ ∃ line ∈ lines, lan.readLine line = .ok (some b) := by
  induction lines generalizing found with
  | nil =>
    cases hl
    simpa using hf
  | cons line lines ih =>
    rw [List.foldlM_cons] at hl
    obtain ⟨found', hround, hl⟩ := bind_eq_ok_iff.1 hl
    obtain ⟨x, hx, hround⟩ := bind_eq_ok_iff.1 hround
    cases hround
    obtain ⟨hnodup, hmem⟩ := ih (nodup_addBroadcast hf x) hl
    refine ⟨hnodup, fun b => ?_⟩
    rw [hmem, mem_addBroadcast, List.exists_mem_cons_iff, hx, or_assoc, Except.ok.injEq]

/-- What is returned is what the lines contribute that are not skipped. -/
theorem mem_localSubnetBroadcasts (h : lan.Assigns ip mask) (hl : lan.localSubnetBroadcasts = .ok l) :
    l.Nodup ∧ ∀ b, b ∈ l ↔ ∃ route m, lan.Uses ip route m ∧
      b = inetNtoa (Subnet.last (lan.ipOf ip route.iface) m) := by
  unfold localSubnetBroadcasts at hl
  cases hlines : lan.routeLines with
  | none =>
    rw [hlines] at hl
    cases hl
    have hroutes : lan.routes = [] := by simp [routes, hlines]
    refine ⟨List.nodup_nil, fun b => iff_of_false List.not_mem_nil ?_⟩
    rintro ⟨route, m, huse, -⟩
    have hmem := huse.listed
    rw [hroutes] at hmem
    cases hmem
  | some lines =>
    rw [hlines] at hl
    have hroutes : lan.routes = (lines.drop 1).filterMap fun line => Route.ofFields (words lan.rt line) := by
      simp [routes, hlines]
    have hlisted : ∀ line ∈ lines.drop 1, ∀ route, Route.ofFields (words lan.rt line) = some route →
        route ∈ lan.routes := fun line hline route hr => by
      rw [hroutes]
      exact List.mem_filterMap.2 ⟨line, hline, hr⟩
    obtain ⟨hnodup, hmem⟩ := collects List.nodup_nil hl
    refine ⟨hnodup, fun b => ?_⟩
    rw [hmem]
    constructor
    · rintro (hnil | ⟨line, hline, hread⟩)
      · cases hnil
      · obtain ⟨route, m, -, huse, hb⟩ := (readLine_eq_some_iff h (hlisted line hline)).1 hread
        exact ⟨route, m, huse, hb⟩
    · rintro ⟨route, m, huse, hb⟩
      have hroute := huse.listed
      rw [hroutes] at hroute
      obtain ⟨line, hline, hfields⟩ := List.mem_filterMap.1 hroute
      exact Or.inr ⟨line, hline, (readLine_eq_some_iff h (hlisted line hline)).2 ⟨route, m, hfields, huse, hb⟩⟩

/-- The mask of a used line matters only where its interface's address has zeros. -/
theorem Assigns.owns_iff (h : lan.Assigns ip mask) (hl : lan.localSubnetBroadcasts = .ok l) :
    (∀ b ∈ l, lan.OwnBroadcast ip mask b) ↔ ∀ route m, lan.Uses ip route m →
      ∃ j ∈ lan.interfaces, m &&& ~~~lan.ipOf ip route.iface = mask j &&& ~~~lan.ipOf ip j := by
  obtain ⟨-, hmem⟩ := mem_localSubnetBroadcasts h hl
  have hline : ∀ (route : Route) (m : BitVec 32),
      lan.OwnBroadcast ip mask (inetNtoa (Subnet.last (lan.ipOf ip route.iface) m)) ↔
        ∃ j ∈ lan.interfaces, m &&& ~~~lan.ipOf ip route.iface = mask j &&& ~~~lan.ipOf ip j := by
    intro route m
    rw [ownBroadcast_iff h]
    simp only [Subnet.last_eq_last_iff]
  constructor
  · intro hall route m huse
    exact (hline route m).1 (hall _ ((hmem _).2 ⟨route, m, huse, rfl⟩))
  · intro hall b hb
    obtain ⟨route, m, huse, rfl⟩ := (hmem b).1 hb
    exact (hline route m).2 (hall route m huse)

/-- Exactly when the mask of every used line selects the zeros of its interface's address that the netmask of a
named interface selects of the address there, all the addresses that are returned are broadcast addresses of the
interfaces' own subnets. No address is returned twice. -/
theorem Assigns.own_broadcasts_iff (h : lan.Assigns ip mask) (hl : lan.localSubnetBroadcasts = .ok l) :
    l.Nodup ∧ ((∀ b ∈ l, lan.OwnBroadcast ip mask b) ↔ ∀ route m, lan.Uses ip route m →
      ∃ j ∈ lan.interfaces, m &&& ~~~lan.ipOf ip route.iface = mask j &&& ~~~lan.ipOf ip j) :=
  ⟨(mem_localSubnetBroadcasts h hl).1, h.owns_iff hl⟩

/-- It is enough that every used line has the netmask of its interface, as on-link routes do. -/
theorem Assigns.owns_of_netmasks (h : lan.Assigns ip mask) (hl : lan.localSubnetBroadcasts = .ok l)
    (hmask : ∀ route m, lan.Uses ip route m → m = mask route.iface) : ∀ b ∈ l, lan.OwnBroadcast ip mask b := by
  refine (h.owns_iff hl).2 fun route m huse => ?_
  refine ⟨route.iface, List.mem_map_of_mem huse.listed, ?_⟩
  rw [hmask route m huse]

/-! ## A host with one interface -/

/-- The number that a text of decimal digits stands for. -/
def decimal (s : Str) : Nat := Nat.ofDigitChars 10 s 0

/-- The address that a dotted quad stands for. -/
def quad (s : Str) : BitVec 32 :=
  let (a, s) := partition '.' s
  let (b, s) := partition '.' s
  let (c, d) := partition '.' s
  BitVec.ofNat 32 (decimal a * 16777216 + decimal b * 65536 + decimal c * 256 + decimal d)

theorem decimal_natStr (n : Nat) : decimal (natStr n) = n := Nat.ofDigitChars_ten_toDigits

theorem dot_notMem_natStr (n : Nat) : '.' ∉ natStr n := fun h => absurd (natStr_digits h) (by decide)

theorem quad_ntoa (a : BitVec 32) : quad (inetNtoa a) = a := by
  have hlt : a.toNat < 4294967296 := a.isLt
  unfold quad inetNtoa
  simp only [List.append_assoc, List.cons_append, partition_append (dot_notMem_natStr _), decimal_natStr]
  apply BitVec.eq_of_toNat_eq
  rw [BitVec.toNat_ofNat]
  omega

/-- Only dotted quads are read as addresses. -/
def readQuad (s : Str) : Option (BitVec 32) := if inetNtoa (quad s) = s then some (quad s) else none

/-- A host on which `eth0` is 192.168.1.5 with the netmask 255.255.255.0. -/
def sample (lines : List Str) : Lan where
  toEnv := { Env.calm 0 with
    inetAton := fun s => (readQuad s).isSome
    interfaceAddress := fun _ => some (inetNtoa 0xC0A80105#32) }
  rt := Runtime.ascii
  aton := readQuad
  interfaceNetmask _ := some 0xFFFFFF00#32
  routeLines := some lines
  inetAton_eq _ := rfl
  aton_ntoa a := by rw [readQuad, quad_ntoa, if_pos rfl]

theorem sample_assigns (lines : List Str) :
    (sample lines).Assigns (fun _ => 0xC0A80105#32) fun _ => 0xFFFFFF00#32 :=
  ⟨rfl, fun _ _ => rfl, fun _ _ => rfl⟩

def sampleHead : Str := "Iface Destination Gateway Flags RefCnt Use Metric Mask".toList

/-- The subnet of `eth0` itself. -/
def sampleOnLink : Str := "eth0 0001A8C0 00000000 0001 0 0 0 00FFFFFF 0 0 0".toList

/-- 10.0.0.0/8, behind a gateway on `eth0`. -/
def sampleGateway : Str := "eth0 0000000A 0101A8C0 0003 0 0 0 000000FF 0 0 0".toList

theorem own_broadcasts_sample : (sample [sampleHead, sampleOnLink]).localSubnetBroadcasts =
      .ok ["192.168.1.255".toList] ∧
    (sample [sampleHead, sampleOnLink]).OwnBroadcast (fun _ => 0xC0A80105#32) (fun _ => 0xFFFFFF00#32)
      "192.168.1.255".toList := by
  have hl : (sample [sampleHead, sampleOnLink]).localSubnetBroadcasts = .ok ["192.168.1.255".toList] := by
    decide +kernel
  refine ⟨hl, ((sample_assigns _).own_broadcasts_iff hl).2.2 ?_ _ (List.mem_singleton_self _)⟩
  intro route m huse
  have hroutes : (sample [sampleHead, sampleOnLink]).routes =
      [⟨"eth0".toList, "0001A8C0".toList, "00FFFFFF".toList⟩] := by
    decide +kernel
  have hroute := huse.listed
  rw [hroutes, List.mem_singleton] at hroute
  have hmask := huse.mask
  have hread : lineMask "00FFFFFF".toList = .ok 0xFFFFFF00#32 := by decide +kernel
  rw [hroute, hread] at hmask
  cases hmask
  exact ⟨route.iface, List.mem_map_of_mem huse.listed, rfl⟩

/-- The mask of the route behind the gateway makes a foreign address of the interface's own one. -/
theorem not_own_broadcasts : ¬ ∀ (lan : Lan) (ip mask : Str → BitVec 32) (l : List Str), lan.Assigns ip mask →
    lan.localSubnetBroadcasts = .ok l → l.Nodup ∧ ∀ b ∈ l, lan.OwnBroadcast ip mask b := by
  intro hall
  have hl : (sample [sampleHead, sampleOnLink, sampleGateway]).localSubnetBroadcasts =
      .ok ["192.168.1.255".toList, "192.255.255.255".toList] := by decide +kernel
  obtain ⟨-, hown⟩ := hall _ _ _ _ (sample_assigns _) hl
  obtain ⟨j, hj, hb, -⟩ := hown "192.255.255.255".toList (by simp)
  have hnames : (sample [sampleHead, sampleOnLink, sampleGateway]).interfaces = ["eth0".toList, "eth0".toList] := by
    decide +kernel
  rw [hnames] at hj
  have hj : j = "eth0".toList := by simpa using hj
  subst hj
  revert hb
  decide +kernel

end Lan

end Zre
