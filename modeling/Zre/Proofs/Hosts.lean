import Zre.Proofs.Endpoints
import Zre.Proofs.HandlerMoves
import Zre.Proofs.Utf8

/-!
# Proofs: the hosts of endpoints

Which hosts come back when the text that `_tcp_address` writes is split and written again. A host with a zone
id does not: written bare it loses the zone, written in brackets it loses the brackets.
-/

namespace Zre

/-- A text without brackets, as hosts and zone ids are; and without the bar that ends an endpoint. -/
structure Unbracketed (s : Str) : Prop where
  opening : '[' ∉ s
  closing : ']' ∉ s
  bar : '|' ∉ s

/-- A host name or an IPv4 literal. -/
structure IsName (s : Str) : Prop extends Unbracketed s where
  colon : ':' ∉ s
  zone : '%' ∉ s

/-- An IPv6 literal without its zone id. -/
structure IsV6 (s : Str) : Prop extends Unbracketed s where
  colon : ':' ∈ s
  zone : '%' ∉ s

/-- The ways in which the host of an endpoint is written. -/
inductive HostText : Str → Prop where
  | name {s : Str} (h : IsName s) : HostText s
  | v6 {s : Str} (h : IsV6 s) : HostText s
  | bracketed {s : Str} (h : IsV6 s) : HostText ('[' :: (s ++ [']']))
  /-- A link-local address with its zone id. -/
  | zoned {s zone : Str} (h : IsV6 s) (hz : Unbracketed zone) : HostText (s ++ '%' :: zone)
  | bracketedZoned {s zone : Str} (h : IsV6 s) (hz : Unbracketed zone) :
    HostText ('[' :: (s ++ '%' :: zone ++ [']']))

/-- What `_tcp_address` writes is read back with its port, and written again it is the same text. -/
def RoundTrips (rt : Runtime) (host : Str) (port : Nat) : Prop :=
  ∃ h, splitEndpoint rt (tcpAddress host port) = .ok (h, (port : Int)) ∧ tcpAddress h port = tcpAddress host port

/-- Whoever dials what a HELLO announces dials the announced text. The wildcard hosts, in whose place the
loopback address is dialled, are left out. -/
def DialsBack (rt : Runtime) (host : Str) (port : Nat) : Prop :=
  ∀ (env : Env) (n n' : Node) (rhex addr : Str) (p : Int) (r : Ref), n.cfg.rt = rt →
    splitEndpoint rt (Node.endpointText (encodeStr (tcpAddress host port))) = .ok (addr, p) →
    Node.dialHost addr = addr → n.dialPeer env rhex (Node.dialHost addr) p = (some r, n') →
    ∃ d, (n'.obj r).dealer = some d ∧ tcpAddress d.addr d.port = tcpAddress host port

section Hosts

variable {rt : Runtime} {s : Str} {n : Nat}

theorem intStr_natCast (n : Nat) : intStr (n : Int) = natStr n := by simp [intStr]

theorem Unbracketed.append_zone {zone : Str} (h : Unbracketed s) (hz : Unbracketed zone) :
    Unbracketed (s ++ '%' :: zone) :=
  ⟨by simp [h.opening, hz.opening], by simp [h.closing, hz.closing], by simp [h.bar, hz.bar]⟩

theorem Unbracketed.not_bracket (h : Unbracketed s) {c : Char} (hc : c ∈ s) :
    (decide (c = '[') || decide (c = ']')) = false := by
  have h1 : c ≠ '[' := fun e => h.opening (e ▸ hc)
  have h2 : c ≠ ']' := fun e => h.closing (e ▸ hc)
  simp [h1, h2]

theorem Unbracketed.strip (h : Unbracketed s) : stripBrackets s = s := stripWith_eq_self fun _ => h.not_bracket

/-- One pair of brackets is stripped. -/
theorem Unbracketed.strip_bracketed (h : Unbracketed s) (hne : s ≠ []) :
    stripBrackets ('[' :: (s ++ [']'])) = s := by
  have hrev : ∀ c ∈ s.reverse, (decide (c = '[') || decide (c = ']')) = false :=
    fun c hc => h.not_bracket (List.mem_reverse.1 hc)
  obtain ⟨x, t, rfl⟩ := List.exists_cons_of_ne_nil hne
  have hfront : ('[' :: (x :: t ++ [']'])).dropWhile (fun c => c = '[' || c = ']') = x :: t ++ [']'] := by
    rw [List.dropWhile_cons_of_pos (by simp), List.cons_append,
      List.dropWhile_cons_of_neg (by rw [h.not_bracket List.mem_cons_self]; simp)]
  have hback : ((x :: t) ++ [']']).reverse = ']' :: (x :: t).reverse := by simp
  unfold stripBrackets stripWith
  rw [hfront, hback, List.dropWhile_cons_of_pos (by simp), dropWhile_eq_self hrev, List.reverse_reverse]

theorem mem_of_mem_stripWith {p : Char → Bool} {c : Char} (h : c ∈ stripWith p s) : c ∈ s := by
  unfold stripWith at h
  rw [List.mem_reverse] at h
  have h' := List.mem_reverse.1 ((List.dropWhile_sublist p).subset h)
  exact (List.dropWhile_sublist p).subset h'

theorem partition_eq_self {c : Char} (h : c ∉ s) : partition c s = (s, []) := by
  induction s with
  | nil => rfl
  | cons x s ih =>
    have hx : x ≠ c := fun e => h (e ▸ List.mem_cons_self)
    simp [partition, hx, ih fun hc => h (List.mem_cons_of_mem x hc)]

/-- The text of a host that goes into brackets. -/
theorem tcpAddress_v6 {host : Str} (hstrip : stripBrackets host = s) (h6 : IsV6 s) (n : Nat) :
    tcpAddress host n = "tcp://[".toList ++ s ++ "]:".toList ++ natStr n := by
  unfold tcpAddress
  simp only [hstrip, intStr_natCast]
  exact if_pos ⟨h6.colon, h6.zone⟩

/-- The text of a host that is written as it is. -/
theorem tcpAddress_plain {host : Str} (hstrip : stripBrackets host = s) (h : ¬ (':' ∈ s ∧ '%' ∉ s)) (n : Nat) :
    tcpAddress host n = "tcp://".toList ++ host ++ ":".toList ++ natStr n := by
  unfold tcpAddress
  simp only [hstrip, intStr_natCast]
  exact if_neg h

/-- The text of a host in brackets is not the text of a host without them. -/
theorem bracketed_ne_plain {host a b t t' : Str} (hne : s ≠ []) (hs : '[' ∉ s) :
    "tcp://[".toList ++ host ++ a ++ t ≠ "tcp://".toList ++ s ++ b ++ t' := by
  obtain ⟨x, u, rfl⟩ := List.exists_cons_of_ne_nil hne
  intro h
  have hleft : "tcp://[".toList ++ host ++ a ++ t = "tcp://".toList ++ '[' :: (host ++ a ++ t) := rfl
  have hright : "tcp://".toList ++ x :: u ++ b ++ t' = "tcp://".toList ++ x :: (u ++ b ++ t') := by
    simp only [List.append_assoc, List.cons_append]
  rw [hleft, hright] at h
  have hx : '[' = x := (List.cons.inj (List.append_cancel_left h)).1
  exact hs (hx ▸ List.mem_cons_self)

theorem IsV6.ne_nil (h : IsV6 s) : s ≠ [] := List.ne_nil_of_mem h.colon

/-- Two texts for endpoints with the same host read. -/
theorem roundTrips_iff {host h : Str} (hread : splitEndpoint rt (tcpAddress host n) = .ok (h, (n : Int))) :
    RoundTrips rt host n ↔ tcpAddress h n = tcpAddress host n := by
  constructor
  · rintro ⟨h', hread', heq⟩
    rw [hread] at hread'
    cases hread'
    exact heq
  · exact fun heq => ⟨h, hread, heq⟩

variable (hrt : rt.ReadsDigits) (hn : n < 65536)

include hrt hn

theorem roundTrips_name (h : IsName s) : RoundTrips rt s n := by
  have htext := tcpAddress_plain h.strip (fun h' => h.colon h'.1) n
  have hread := splitEndpoint_plain hrt hn h.opening
  rw [← htext, partition_eq_self h.zone] at hread
  exact (roundTrips_iff hread).2 rfl

/-- An IPv6 literal, in brackets or not. -/
theorem roundTrips_v6 {host : Str} (hstrip : stripBrackets host = s) (h : IsV6 s) : RoundTrips rt host n := by
  have htext := tcpAddress_v6 hstrip h n
  have hread := splitEndpoint_bracketed hrt hn h.closing
  rw [← htext] at hread
  exact (roundTrips_iff hread).2 ((tcpAddress_v6 h.strip h n).trans htext.symm)

/-- The zone id is cut off, and what is left goes into brackets. -/
theorem not_roundTrips_zoned {zone : Str} (h : IsV6 s) (hz : Unbracketed zone) :
    ¬ RoundTrips rt (s ++ '%' :: zone) n := by
  have hall := h.toUnbracketed.append_zone hz
  have htext := tcpAddress_plain hall.strip (fun h' => h'.2 (by simp)) n
  have hread := splitEndpoint_plain hrt hn hall.opening
  rw [← htext, partition_append h.zone] at hread
  rw [roundTrips_iff hread, tcpAddress_v6 h.strip h, htext]
  exact bracketed_ne_plain (by simp) hall.opening

/-- The brackets are taken off, and not put back because of the zone id. -/
theorem not_roundTrips_bracketedZoned {zone : Str} (h : IsV6 s) (hz : Unbracketed zone) :
    ¬ RoundTrips rt ('[' :: (s ++ '%' :: zone ++ [']'])) n := by
  have hall := h.toUnbracketed.append_zone hz
  have hzone : ¬ (':' ∈ s ++ '%' :: zone ∧ '%' ∉ s ++ '%' :: zone) := fun h' => h'.2 (by simp)
  have htext := tcpAddress_plain (hall.strip_bracketed (by simp)) hzone n
  have hshape : "tcp://".toList ++ '[' :: (s ++ '%' :: zone ++ [']']) ++ ":".toList ++ natStr n =
      "tcp://[".toList ++ (s ++ '%' :: zone) ++ "]:".toList ++ natStr n := by
    simp
  have hread := splitEndpoint_bracketed hrt hn hall.closing
  rw [← hshape, ← htext] at hread
  rw [roundTrips_iff hread, tcpAddress_plain hall.strip hzone, htext, hshape]
  exact (bracketed_ne_plain (by simp) hall.opening).symm

/-- A host comes back as it was if it has no zone id. -/
theorem HostText.comes_back_iff {host : Str} (h : HostText host) : RoundTrips rt host n ↔ '%' ∉ host := by
  cases h with
  | name h => exact iff_of_true (roundTrips_name hrt hn h) h.zone
  | v6 h => exact iff_of_true (roundTrips_v6 hrt hn h.strip h) h.zone
  | bracketed h => exact iff_of_true (roundTrips_v6 hrt hn (h.strip_bracketed h.ne_nil) h) (by simp [h.zone])
  | zoned h hz => exact iff_of_false (not_roundTrips_zoned hrt hn h hz) (by simp)
  | bracketedZoned h hz => exact iff_of_false (not_roundTrips_bracketedZoned hrt hn h hz) (by simp)

omit hrt hn in
theorem HostText.bar {host : Str} (h : HostText host) : '|' ∉ host := by
  cases h with
  | name h => exact h.bar
  | v6 h => exact h.bar
  | bracketed h => simp [h.bar]
  | zoned h hz => simp [h.bar, hz.bar]
  | bracketedZoned h hz => simp [h.bar, hz.bar]

omit hrt hn in
/-- The announced text is not taken for one with a key. -/
theorem HostText.endpointText {host : Str} (h : HostText host) (n : Nat) :
    Node.endpointText (encodeStr (tcpAddress host n)) = tcpAddress host n := by
  have hstrip : '|' ∉ stripBrackets host := fun hc => h.bar (mem_of_mem_stripWith hc)
  have hdigits : '|' ∉ natStr n := fun hc => absurd (natStr_digits hc) (by decide)
  have hbar : '|' ∉ tcpAddress host n := by
    unfold tcpAddress
    simp only [intStr_natCast]
    split <;> simp [hstrip, h.bar, hdigits]
  rw [Node.endpointText, bdec_encodeStr, partition_eq_self hbar]

omit hrt hn in
/-- The socket that a dial opens is connected to the dialled address. -/
theorem dialPeer_dealer {env : Env} {n n' : Node} {rhex addr : Str} {port : Int} {r : Ref}
    (h : n.dialPeer env rhex addr port = (some r, n')) :
    ∃ d, (n'.obj r).dealer = some d ∧ d.addr = addr ∧ d.port = port := by
  unfold Node.dialPeer at h
  cases hopen : n.openPeer env rhex addr port (some rhex) with
  | mk o m =>
    rw [hopen] at h
    cases o with
    | none => cases h
    | some s =>
      cases h
      obtain ⟨rfl, curve, rfl⟩ := Node.openPeer_some hopen
      exact ⟨_, congrArg Peer.dealer (Node.allocated_obj_self n _), rfl, rfl⟩

/-- Exactly the hosts without a zone id come back as they were, and are dialled as they were announced. -/
theorem HostText.announced_iff {host : Str} (h : HostText host) :
    RoundTrips rt host n ∧ DialsBack rt host n ↔ '%' ∉ host := by
  rw [← h.comes_back_iff hrt hn, and_iff_left_iff_imp]
  rintro ⟨h', hread, heq⟩ env node node' rhex addr p r hcfg hsplit hwild hdial
  rw [h.endpointText, hread] at hsplit
  cases hsplit
  rw [hwild] at hdial
  obtain ⟨d, hd, rfl, hport⟩ := dialPeer_dealer hdial
  exact ⟨d, hd, hport ▸ heq⟩

end Hosts

/-- A link-local address without and with its zone id. -/
def sampleV6 : Str := "fe80::1".toList

def sampleZoned : Str := sampleV6 ++ '%' :: "eth0".toList

theorem sampleV6_isV6 : IsV6 sampleV6 :=
  ⟨⟨by decide, by decide, by decide⟩, by decide, by decide⟩

theorem announced_sampleV6 : RoundTrips Runtime.ascii sampleV6 5555 ∧ DialsBack Runtime.ascii sampleV6 5555 :=
  ((HostText.v6 sampleV6_isV6).announced_iff Runtime.ascii_readsDigits (by decide)).2 (by decide)

/-- The zone id does not come back. -/
theorem not_comes_back : ¬ ∀ (host : Str) (port : Nat), HostText host → port < 65536 →
    RoundTrips Runtime.ascii host port := by
  intro hall
  have hzoned : HostText sampleZoned := .zoned sampleV6_isV6 ⟨by decide, by decide, by decide⟩
  obtain ⟨h, hread, heq⟩ := hall sampleZoned 5555 hzoned (by decide)
  have hreads : splitEndpoint Runtime.ascii (tcpAddress sampleZoned (5555 : Nat)) = .ok (sampleV6, 5555) := by
    decide +kernel
  rw [hreads] at hread
  cases hread
  revert heq
  decide +kernel

end Zre
