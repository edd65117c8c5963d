import Zre.Text

/-!
# Proofs: endpoint text

Numbers are read back from their decimal text, and `_split_endpoint` reads back what `_tcp_address`
writes for an IPv4 address, a host name or an IPv6 address.
-/

namespace Zre

/-- What Python documents about `int()`: a digit is not stripped, and the limit on the length of its
argument is 0 or at least 640. -/
structure Runtime.ReadsDigits (rt : Runtime) : Prop where
  space : ∀ c : Char, c.isDigit = true → rt.isSpace c = false
  limit : rt.maxStrDigits = 0 ∨ 640 ≤ rt.maxStrDigits

theorem Runtime.ascii_readsDigits : Runtime.ascii.ReadsDigits := by
  refine ⟨fun c hc => ?_, Or.inr (by decide)⟩
  simp only [Char.isDigit, Bool.and_eq_true, decide_eq_true_eq, UInt32.le_iff_toNat_le] at hc
  have h48 : 48 ≤ c.toNat := hc.1
  have hspace : c ≠ ' ' := by
    rintro rfl
    exact absurd h48 (by decide)
  simp only [Runtime.ascii, hspace, decide_false, Bool.false_or, Bool.and_eq_false_iff,
    decide_eq_false_iff_not]
  omega

/-! ## Numbers -/

section Numbers

variable {rt : Runtime}

theorem isDigit_lt {c : Char} (h : c.isDigit = true) : c.toNat < 128 := by
  simp only [Char.isDigit, Bool.and_eq_true, decide_eq_true_eq, UInt32.le_iff_toNat_le] at h
  have h57 : c.toNat ≤ 57 := h.2
  omega

theorem digit_of_isDigit {c : Char} (h : c.isDigit = true) : rt.digit c = some (c.toNat - 48) := by
  rw [rt.digit_ascii c (isDigit_lt h), if_pos h]

/-- A text of ASCII digits is read digit by digit. -/
theorem intDigits_of_digits {s : Str} (hne : s ≠ []) (h : ∀ c ∈ s, c.isDigit = true) :
    intDigits rt s = some (s.map fun c => c.toNat - 48) := by
  induction s with
  | nil => exact absurd rfl hne
  | cons c s ih =>
    have hc := h c (by simp)
    have hs : ∀ d ∈ s, d.isDigit = true := fun d hd => h d (List.mem_cons_of_mem c hd)
    rw [intDigits, digit_of_isDigit hc]
    cases s with
    | nil => rfl
    | cons d s =>
      have hd : d ≠ '_' := by
        rintro rfl
        exact absurd (hs '_' (by simp)) (by decide)
      have hrest := ih (by simp) hs
      simp only []
      split
      · rename_i heq
        cases heq
      · rename_i heq
        cases heq
        exact absurd rfl hd
      · rw [hrest]
        rfl

theorem dropWhile_eq_self {p : Char → Bool} {s : Str} (h : ∀ c ∈ s, p c = false) :
    s.dropWhile p = s := by
  cases s with
  | nil => rfl
  | cons c s => rw [List.dropWhile_cons, h c (by simp)]; rfl

/-- Nothing is stripped from a text without such characters. -/
theorem stripWith_eq_self {p : Char → Bool} {s : Str} (h : ∀ c ∈ s, p c = false) :
    stripWith p s = s := by
  have hrev : ∀ c ∈ s.reverse, p c = false := fun c hc => h c (List.mem_reverse.1 hc)
  rw [stripWith, dropWhile_eq_self h, dropWhile_eq_self hrev, List.reverse_reverse]

theorem natStr_digits {n : Nat} {c : Char} (h : c ∈ natStr n) : c.isDigit = true :=
  Nat.isDigit_of_mem_toDigits (by decide) (by decide) h

theorem foldl_digits (s : Str) (a : Nat) :
    (s.map fun c => c.toNat - 48).foldl (fun a d => 10 * a + d) a = Nat.ofDigitChars 10 s a := by
  rw [Nat.ofDigitChars_eq_foldl, List.foldl_map]
  rfl

/-- `int(str(n))` is `n`, for a port. -/
theorem pyInt_natStr (hrt : rt.ReadsDigits) {n : Nat} (hn : n < 65536) :
    pyInt rt (natStr n) = .ok (n : Int) := by
  have hdigits : ∀ c ∈ natStr n, c.isDigit = true := fun c hc => natStr_digits hc
  have hne : natStr n ≠ [] := Nat.toDigits_ne_nil
  have hlen : (natStr n).length ≤ 5 :=
    (Nat.length_toDigits_le_iff (by decide) (by decide)).2 (lt_trans hn (by decide))
  have hstrip : stripWith rt.isSpace (natStr n) = natStr n :=
    stripWith_eq_self fun c hc => hrt.space c (hdigits c hc)
  have hlimit : ¬ (rt.maxStrDigits ≠ 0 ∧ rt.maxStrDigits < ((natStr n).map fun c => c.toNat - 48).length) := by
    rintro ⟨h0, hlt⟩
    rw [List.length_map] at hlt
    have := hrt.limit.resolve_left h0
    omega
  have hval : ((natStr n).map fun c => c.toNat - 48).foldl (fun a d => 10 * a + d) 0 = n :=
    (foldl_digits (natStr n) 0).trans Nat.ofDigitChars_ten_toDigits
  have hread : intDigits rt (natStr n) = _ := intDigits_of_digits hne hdigits
  unfold pyInt
  rw [hstrip]
  generalize natStr n = s at hdigits hne hread hlimit hval
  cases s with
  | nil => exact absurd rfl hne
  | cons c s =>
    have hminus : c ≠ '-' := by
      rintro rfl
      exact absurd (hdigits '-' (by simp)) (by decide)
    have hplus : c ≠ '+' := by
      rintro rfl
      exact absurd (hdigits '+' (by simp)) (by decide)
    simp only [List.cons.injEq, hminus, hplus, false_and, implies_true, imp_self, hread, if_neg hlimit, hval,
      Bool.false_eq_true, if_false]

end Numbers

/-! ## Splitting -/

theorem partition_append {c : Char} {s : Str} (h : c ∉ s) (t : Str) :
    partition c (s ++ c :: t) = (s, t) := by
  induction s with
  | nil => simp [partition]
  | cons x s ih =>
    have hx : x ≠ c := by
      rintro rfl
      exact h (by simp)
    simp [partition, hx, ih fun hc => h (List.mem_cons_of_mem x hc)]

theorem rpartition_append {c : Char} (s : Str) {t : Str} (h : c ∉ t) :
    rpartition c (s ++ c :: t) = (s, t) := by
  have hrev : (s ++ c :: t).reverse = t.reverse ++ c :: s.reverse := by simp
  have hp := partition_append (fun hc => h (List.mem_reverse.1 hc)) s.reverse
  simp [rpartition, hrev, hp]

theorem colon_notMem_natStr (n : Nat) : ':' ∉ natStr n := fun h =>
  absurd (natStr_digits h) (by decide)

/-! ## Endpoints -/

theorem afterScheme_tcp (s : Str) : afterScheme ("tcp://".toList ++ s) = some s := rfl

section Endpoints

variable {rt : Runtime} {n : Nat}

/-- The endpoint of a bracketed host. -/
theorem splitEndpoint_bracketed (hrt : rt.ReadsDigits) (hn : n < 65536) {host : Str}
    (hhost : ']' ∉ host) :
    splitEndpoint rt ("tcp://[".toList ++ host ++ "]:".toList ++ natStr n) = .ok (host, (n : Int)) := by
  have hafter : afterScheme ("tcp://[".toList ++ host ++ "]:".toList ++ natStr n) =
      some ('[' :: (host ++ ']' :: ':' :: natStr n)) := by
    rw [show "tcp://[".toList ++ host ++ "]:".toList ++ natStr n =
      "tcp://".toList ++ '[' :: (host ++ ']' :: ':' :: natStr n) by simp, afterScheme_tcp]
  have hdrop : (':' :: natStr n).dropWhile (· = ':') = natStr n := by
    rw [List.dropWhile_cons_of_pos (by simp)]
    exact dropWhile_eq_self fun c hc => by
      have hne : c ≠ ':' := by
        rintro rfl
        exact colon_notMem_natStr n hc
      simp [hne]
  unfold splitEndpoint
  rw [hafter]
  simp only [partition_append hhost, hdrop, pyInt_natStr hrt hn]
  rfl

/-- The endpoint of a host without brackets. -/
theorem splitEndpoint_plain (hrt : rt.ReadsDigits) (hn : n < 65536) {host : Str}
    (hhost : '[' ∉ host) :
    splitEndpoint rt ("tcp://".toList ++ host ++ ":".toList ++ natStr n) =
      .ok ((partition '%' host).1, (n : Int)) := by
  have hafter : afterScheme ("tcp://".toList ++ host ++ ":".toList ++ natStr n) =
      some (host ++ ':' :: natStr n) := by
    rw [List.append_assoc, List.append_assoc, afterScheme_tcp]
    rfl
  have hsplit := rpartition_append host (colon_notMem_natStr n)
  unfold splitEndpoint
  rw [hafter]
  split
  · rename_i heq
    cases heq
  · rename_i s heq
    cases host with
    | nil => cases heq
    | cons c host =>
      cases heq
      exact absurd (by simp) hhost
  · rename_i s _ heq
    cases heq
    simp only [hsplit, pyInt_natStr hrt hn]
    rfl

/-- `_split_endpoint` reads the port that `_tcp_address` wrote, if the address has no brackets. -/
theorem splitEndpoint_tcpAddress (hrt : rt.ReadsDigits) (hn : n < 65536) {addr : Str}
    (hopen : '[' ∉ addr) (hclose : ']' ∉ addr) :
    ∃ host, splitEndpoint rt (tcpAddress addr n) = .ok (host, (n : Int)) := by
  have hstrip : stripBrackets addr = addr := stripWith_eq_self fun c hc => by
    have h1 : c ≠ '[' := fun h => hopen (h ▸ hc)
    have h2 : c ≠ ']' := fun h => hclose (h ▸ hc)
    simp [h1, h2]
  have hint : intStr (n : Int) = natStr n := by simp [intStr]
  unfold tcpAddress
  simp only [hstrip, hint]
  split
  · exact ⟨addr, splitEndpoint_bracketed hrt hn hclose⟩
  · exact ⟨_, splitEndpoint_plain hrt hn hopen⟩

end Endpoints

end Zre
