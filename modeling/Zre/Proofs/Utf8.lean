import Zre.Text

/-!
# Proofs: UTF-8

What `str.encode` gives is what `bytes.decode` accepts, and decoding gives the text back.
-/

namespace Zre

/-! ## Bytes as numbers -/

variable {n : Nat}

theorem ofNat_lt_iff (hn : n < 256) (m : Nat) (hm : m < 256) :
    UInt8.ofNat n < UInt8.ofNat m ↔ n < m := by
  rw [UInt8.lt_iff_toNat_lt, UInt8.toNat_ofNat_of_lt' hn, UInt8.toNat_ofNat_of_lt' hm]

theorem le_ofNat_iff (hn : n < 256) (m : Nat) (hm : m < 256) :
    UInt8.ofNat m ≤ UInt8.ofNat n ↔ m ≤ n := by
  rw [UInt8.le_iff_toNat_le, UInt8.toNat_ofNat_of_lt' hn, UInt8.toNat_ofNat_of_lt' hm]

theorem ofNat_eq_iff (hn : n < 256) (m : Nat) (hm : m < 256) :
    UInt8.ofNat n = UInt8.ofNat m ↔ n = m := by
  rw [← UInt8.toNat_inj, UInt8.toNat_ofNat_of_lt' hn, UInt8.toNat_ofNat_of_lt' hm]

/-- Continuation bytes carry six bits. -/
theorem isCont_ofNat (hn : n < 64) : isCont (UInt8.ofNat (n + 0x80)) = true := by
  have hlt : n + 0x80 < 256 := by omega
  have hlow : (0x80 : UInt8) ≤ UInt8.ofNat (n + 0x80) := (le_ofNat_iff hlt 0x80 (by decide)).2 (by omega)
  have hhigh : UInt8.ofNat (n + 0x80) < 0xC0 := (ofNat_lt_iff hlt 0xC0 (by decide)).2 (by omega)
  simp only [isCont, hlow, hhigh, decide_true, Bool.and_self]

/-- The second byte of a three-byte character: not overlong, not a surrogate. -/
theorem isSecond3_ofNat {a : Nat} (ha : a < 16) (hn : n < 64) (hlong : a = 0 → 0x20 ≤ n)
    (hsurrogate : a = 0xD → n < 0x20) :
    isSecond3 (UInt8.ofNat (a + 0xE0)) (UInt8.ofNat (n + 0x80)) = true := by
  have hlead : a + 0xE0 < 256 := by omega
  have hlt : n + 0x80 < 256 := by omega
  have hE0 : UInt8.ofNat (a + 0xE0) = 0xE0 ↔ a + 0xE0 = 0xE0 :=
    ofNat_eq_iff hlead 0xE0 (by decide)
  have hED : UInt8.ofNat (a + 0xE0) = 0xED ↔ a + 0xE0 = 0xED :=
    ofNat_eq_iff hlead 0xED (by decide)
  have hA0 : UInt8.ofNat (n + 0x80) < 0xA0 ↔ n + 0x80 < 0xA0 := ofNat_lt_iff hlt 0xA0 (by decide)
  have hA0' : (0xA0 : UInt8) ≤ UInt8.ofNat (n + 0x80) ↔ 0xA0 ≤ n + 0x80 :=
    le_ofNat_iff hlt 0xA0 (by decide)
  simp only [isSecond3, isCont_ofNat hn, Bool.true_and, Bool.and_eq_true, Bool.not_eq_true',
    Bool.and_eq_false_iff, beq_eq_false_iff_ne, ne_eq, decide_eq_false_iff_not, hE0, hED, hA0, hA0']
  omega

/-- The second byte of a four-byte character: not overlong, not above U+10FFFF. -/
theorem isSecond4_ofNat {a : Nat} (ha : a < 5) (hn : n < 64) (hlong : a = 0 → 0x10 ≤ n)
    (hhigh : a = 4 → n < 0x10) :
    isSecond4 (UInt8.ofNat (a + 0xF0)) (UInt8.ofNat (n + 0x80)) = true := by
  have hlead : a + 0xF0 < 256 := by omega
  have hlt : n + 0x80 < 256 := by omega
  have hF0 : UInt8.ofNat (a + 0xF0) = 0xF0 ↔ a + 0xF0 = 0xF0 :=
    ofNat_eq_iff hlead 0xF0 (by decide)
  have hF4 : UInt8.ofNat (a + 0xF0) = 0xF4 ↔ a + 0xF0 = 0xF4 :=
    ofNat_eq_iff hlead 0xF4 (by decide)
  have h90 : UInt8.ofNat (n + 0x80) < 0x90 ↔ n + 0x80 < 0x90 := ofNat_lt_iff hlt 0x90 (by decide)
  have h90' : (0x90 : UInt8) ≤ UInt8.ofNat (n + 0x80) ↔ 0x90 ≤ n + 0x80 :=
    le_ofNat_iff hlt 0x90 (by decide)
  simp only [isSecond4, isCont_ofNat hn, Bool.true_and, Bool.and_eq_true, Bool.not_eq_true',
    Bool.and_eq_false_iff, beq_eq_false_iff_ne, ne_eq, decide_eq_false_iff_not, hF0, hF4, h90, h90']
  omega

/-! ## Characters -/

theorem decodeUtf8_one (hn : n < 0x80) (rest : Bytes) :
    decodeUtf8 (UInt8.ofNat n :: rest) = some (chr n) :: decodeUtf8 rest := by
  have hlt : n < 256 := by omega
  have h1 : UInt8.ofNat n < 0x80 := (ofNat_lt_iff hlt 0x80 (by decide)).2 hn
  rw [decodeUtf8.eq_def]
  simp only [if_pos h1, UInt8.toNat_ofNat_of_lt' hlt]

theorem decodeUtf8_two {a b : Nat} (ha : a < 32) (hlong : 2 ≤ a) (hb : b < 64) (rest : Bytes) :
    decodeUtf8 (UInt8.ofNat (a + 0xC0) :: UInt8.ofNat (b + 0x80) :: rest) =
      some (chr (a * 64 + b)) :: decodeUtf8 rest := by
  have hlt : a + 0xC0 < 256 := by omega
  have hlt' : b + 0x80 < 256 := by omega
  have h1 : ¬ UInt8.ofNat (a + 0xC0) < 0x80 :=
    mt (ofNat_lt_iff hlt 0x80 (by decide)).1 (by omega)
  have h2 : ¬ UInt8.ofNat (a + 0xC0) < 0xC2 :=
    mt (ofNat_lt_iff hlt 0xC2 (by decide)).1 (by omega)
  have h3 : UInt8.ofNat (a + 0xC0) < 0xE0 := (ofNat_lt_iff hlt 0xE0 (by decide)).2 (by omega)
  rw [decodeUtf8.eq_def]
  simp only [if_neg h1, if_neg h2, if_pos h3, isCont_ofNat hb, if_true, UInt8.toNat_ofNat_of_lt' hlt,
    UInt8.toNat_ofNat_of_lt' hlt', Nat.add_sub_cancel]

theorem decodeUtf8_three {a b c : Nat} (ha : a < 16) (hb : b < 64) (hc : c < 64)
    (hlong : a = 0 → 0x20 ≤ b) (hsurrogate : a = 0xD → b < 0x20) (rest : Bytes) :
    decodeUtf8 (UInt8.ofNat (a + 0xE0) :: UInt8.ofNat (b + 0x80) :: UInt8.ofNat (c + 0x80) :: rest) =
      some (chr (a * 4096 + b * 64 + c)) :: decodeUtf8 rest := by
  have hlt : a + 0xE0 < 256 := by omega
  have hltb : b + 0x80 < 256 := by omega
  have hltc : c + 0x80 < 256 := by omega
  have h1 : ¬ UInt8.ofNat (a + 0xE0) < 0x80 :=
    mt (ofNat_lt_iff hlt 0x80 (by decide)).1 (by omega)
  have h2 : ¬ UInt8.ofNat (a + 0xE0) < 0xC2 :=
    mt (ofNat_lt_iff hlt 0xC2 (by decide)).1 (by omega)
  have h3 : ¬ UInt8.ofNat (a + 0xE0) < 0xE0 :=
    mt (ofNat_lt_iff hlt 0xE0 (by decide)).1 (by omega)
  have h4 : UInt8.ofNat (a + 0xE0) < 0xF0 := (ofNat_lt_iff hlt 0xF0 (by decide)).2 (by omega)
  rw [decodeUtf8.eq_def]
  simp only [if_neg h1, if_neg h2, if_neg h3, if_pos h4, isSecond3_ofNat ha hb hlong hsurrogate,
    isCont_ofNat hc, if_true, UInt8.toNat_ofNat_of_lt' hlt, UInt8.toNat_ofNat_of_lt' hltb,
    UInt8.toNat_ofNat_of_lt' hltc, Nat.add_sub_cancel]

theorem decodeUtf8_four {a b c d : Nat} (ha : a < 5) (hb : b < 64) (hc : c < 64) (hd : d < 64)
    (hlong : a = 0 → 0x10 ≤ b) (hhigh : a = 4 → b < 0x10) (rest : Bytes) :
    decodeUtf8 (UInt8.ofNat (a + 0xF0) :: UInt8.ofNat (b + 0x80) :: UInt8.ofNat (c + 0x80) ::
        UInt8.ofNat (d + 0x80) :: rest) =
      some (chr (a * 262144 + b * 4096 + c * 64 + d)) :: decodeUtf8 rest := by
  have hlt : a + 0xF0 < 256 := by omega
  have hltb : b + 0x80 < 256 := by omega
  have hltc : c + 0x80 < 256 := by omega
  have hltd : d + 0x80 < 256 := by omega
  have h1 : ¬ UInt8.ofNat (a + 0xF0) < 0x80 :=
    mt (ofNat_lt_iff hlt 0x80 (by decide)).1 (by omega)
  have h2 : ¬ UInt8.ofNat (a + 0xF0) < 0xC2 :=
    mt (ofNat_lt_iff hlt 0xC2 (by decide)).1 (by omega)
  have h3 : ¬ UInt8.ofNat (a + 0xF0) < 0xE0 :=
    mt (ofNat_lt_iff hlt 0xE0 (by decide)).1 (by omega)
  have h4 : ¬ UInt8.ofNat (a + 0xF0) < 0xF0 :=
    mt (ofNat_lt_iff hlt 0xF0 (by decide)).1 (by omega)
  have h5 : UInt8.ofNat (a + 0xF0) < 0xF5 := (ofNat_lt_iff hlt 0xF5 (by decide)).2 (by omega)
  rw [decodeUtf8.eq_def]
  simp only [if_neg h1, if_neg h2, if_neg h3, if_neg h4, if_pos h5, isSecond4_ofNat ha hb hlong hhigh,
    isCont_ofNat hc, isCont_ofNat hd, if_true, UInt8.toNat_ofNat_of_lt' hlt,
    UInt8.toNat_ofNat_of_lt' hltb, UInt8.toNat_ofNat_of_lt' hltc, UInt8.toNat_ofNat_of_lt' hltd, Nat.add_sub_cancel]

theorem chr_toNat (c : Char) : chr c.toNat = c := Char.ofNat_toNat c

/-- The code points are the scalar values. -/
theorem toNat_scalar (c : Char) : c.toNat < 0xD800 ∨ 0xDFFF < c.toNat ∧ c.toNat < 0x110000 := c.valid

/-- A character is read back from its encoding. -/
theorem decodeUtf8_char (c : Char) (rest : Bytes) :
    decodeUtf8 (String.utf8EncodeChar c ++ rest) = some c :: decodeUtf8 rest := by
  have hscalar := toNat_scalar c
  have hchr := chr_toNat c
  unfold String.utf8EncodeChar
  rw [show c.val.toNat = c.toNat from rfl]
  generalize c.toNat = v at hscalar hchr
  by_cases h1 : v ≤ 0x7F
  · simp only [if_pos h1, List.cons_append, List.nil_append]
    rw [decodeUtf8_one (by omega), hchr]
  by_cases h2 : v ≤ 0x7FF
  · simp only [if_neg h1, if_pos h2, List.cons_append, List.nil_append]
    rw [decodeUtf8_two (by omega) (by omega) (by omega),
      show v / 64 % 32 * 64 + v % 64 = v by omega, hchr]
  by_cases h3 : v ≤ 0xFFFF
  · simp only [if_neg h1, if_neg h2, if_pos h3, List.cons_append, List.nil_append]
    rw [decodeUtf8_three (by omega) (by omega) (by omega) (by omega) (by omega),
      show v / 4096 % 16 * 4096 + v / 64 % 64 * 64 + v % 64 = v by omega, hchr]
  · simp only [if_neg h1, if_neg h2, if_neg h3, List.cons_append, List.nil_append]
    rw [decodeUtf8_four (by omega) (by omega) (by omega) (by omega) (by omega) (by omega),
      show v / 262144 % 8 * 262144 + v / 4096 % 64 * 4096 + v / 64 % 64 * 64 + v % 64 = v by omega, hchr]

/-! ## Texts -/

/-- Encoded text has no ill-formed stretch. -/
theorem decodeUtf8_encodeStr (s : Str) : decodeUtf8 (encodeStr s) = s.map some := by
  induction s with
  | nil => rfl
  | cons c s ih =>
    rw [show encodeStr (c :: s) = String.utf8EncodeChar c ++ encodeStr s from rfl, decodeUtf8_char, ih]
    rfl

/-- `s.encode().decode()` is `s`. -/
theorem decodeStrict_encodeStr (s : Str) : decodeStrict (encodeStr s) = .ok s := by
  have hsome : (s.map some).all (·.isSome) = true := by simp
  simp only [decodeStrict, decodeUtf8_encodeStr, hsome, if_true, List.map_map]
  exact congrArg Except.ok (List.map_id' s)

/-- `s.encode().decode(errors="replace")` is `s`. -/
theorem bdec_encodeStr (s : Str) : bdec (encodeStr s) = s := by
  rw [bdec, decodeUtf8_encodeStr, List.map_map]
  exact List.map_id' s

end Zre
