import Mathlib.Data.List.DropRight
import PowerfarmKernel.Kernel.Encoding
import PowerfarmKernel.Lib.Base64

/-!
# Texts of bytes, there and back

Keys and signatures travel as texts: in base64url without the padding, or, for keys, in
hexadecimal. The decoder of base64url is a loop over its position in a group of four
characters; one whole group takes it back to where it was, three bytes further
(`PowerfarmKernel.base64Loop_group`). So what was encoded is decoded again
(`PowerfarmKernel.urlsafeB64decode_unpadded`), once the padding that was left out is put
back, and so are hexadecimal digits (`PowerfarmKernel.fromHex_toHex`).
-/

namespace PowerfarmKernel

open Base64

variable {out : Bytes}

/-! ### Base64 -/

/-- A character of the alphabet stands for its six bits. -/
theorem base64Digit_urlsafeChar {n : ℕ} (hn : n < 64) : base64Digit (urlsafeChar n) = some n := by
  have hall : ∀ i : Fin 64, base64Digit (urlsafeChar i) = some i.val := by decide +kernel
  exact hall ⟨n, hn⟩

theorem urlsafeChar_ascii {n : ℕ} (hn : n < 64) : (urlsafeChar n).toNat < 128 := by
  have hall : ∀ i : Fin 64, (urlsafeChar i).toNat < 128 := by decide +kernel
  exact hall ⟨n, hn⟩

/-- A byte from the number it is. -/
theorem ofNat_eq {b : UInt8} {n : ℕ} (h : n = b.toNat) : UInt8.ofNat n = b := by
  rw [h, UInt8.ofNat_toNat]

/-- The loop at the first character of a group. -/
theorem base64Loop_first {n : ℕ} (hn : n < 64) (rest : List Char) (left pads : ℕ) :
    base64Loop (urlsafeChar n :: rest) 0 left pads out = base64Loop rest 1 n 0 out := by
  rw [base64Loop, if_neg (urlsafeChar_ne_pad hn), base64Digit_urlsafeChar hn]
  rfl

/-- At the second one a byte is complete. -/
theorem base64Loop_second {a : UInt8} {n left : ℕ} (hn : n < 64)
    (ha : a.toNat = left * 4 + n / 16) (rest : List Char) (pads : ℕ) :
    base64Loop (urlsafeChar n :: rest) 1 left pads out =
      base64Loop rest 2 (n % 16) 0 (a :: out) := by
  rw [base64Loop, if_neg (urlsafeChar_ne_pad hn), base64Digit_urlsafeChar hn]
  dsimp only
  rw [ofNat_eq ha.symm]
  rfl

theorem base64Loop_third {b : UInt8} {n left : ℕ} (hn : n < 64)
    (hb : b.toNat = left * 16 + n / 4) (rest : List Char) (pads : ℕ) :
    base64Loop (urlsafeChar n :: rest) 2 left pads out =
      base64Loop rest 3 (n % 4) 0 (b :: out) := by
  rw [base64Loop, if_neg (urlsafeChar_ne_pad hn), base64Digit_urlsafeChar hn]
  dsimp only
  rw [ofNat_eq hb.symm]
  rfl

theorem base64Loop_fourth {c : UInt8} {n left : ℕ} (hn : n < 64)
    (hc : c.toNat = left * 64 + n) (rest : List Char) (pads : ℕ) :
    base64Loop (urlsafeChar n :: rest) 3 left pads out = base64Loop rest 0 0 0 (c :: out) := by
  rw [base64Loop, if_neg (urlsafeChar_ne_pad hn), base64Digit_urlsafeChar hn]
  dsimp only
  rw [ofNat_eq hc.symm]
  rfl

/-- **A whole group** takes the loop three bytes further. -/
theorem base64Loop_group (a b c : UInt8) (rest : List Char) :
    base64Loop (urlsafeChar (a.toNat / 4) :: urlsafeChar (a.toNat % 4 * 16 + b.toNat / 16) ::
        urlsafeChar (b.toNat % 16 * 4 + c.toNat / 64) :: urlsafeChar (c.toNat % 64) :: rest)
        0 0 0 out =
      base64Loop rest 0 0 0 (c :: b :: a :: out) := by
  have ha := a.toNat_lt
  have hb := b.toNat_lt
  have hc := c.toNat_lt
  rw [base64Loop_first (by omega), base64Loop_second (a := a) (by omega) (by omega),
    base64Loop_third (b := b) (by omega) (by omega),
    base64Loop_fourth (c := c) (by omega) (by omega)]

/-- **The loop undoes the encoding.** -/
theorem base64Loop_urlsafeEncode (bytes : Bytes) :
    base64Loop (urlsafeEncode bytes) 0 0 0 out = some (out.reverse ++ bytes) := by
  induction bytes using urlsafeEncode.induct generalizing out with
  | case1 => simp [urlsafeEncode, base64Loop]
  | case2 a =>
    -- Two characters, and the padding ends the input.
    have ha := a.toNat_lt
    rw [urlsafeEncode, base64Loop_first (by omega),
      base64Loop_second (a := a) (by omega) (by omega)]
    simp [base64Loop]
  | case3 a b =>
    have ha := a.toNat_lt
    have hb := b.toNat_lt
    rw [urlsafeEncode, base64Loop_first (by omega),
      base64Loop_second (a := a) (by omega) (by omega),
      base64Loop_third (b := b) (by omega) (by omega)]
    simp [base64Loop]
  | case4 a b c bytes ih =>
    rw [urlsafeEncode, base64Loop_group, ih]
    simp

/-- **What the encoding is made of**: characters of the alphabet, four for three bytes, and
the padding. -/
theorem exists_urlsafeEncode (bytes : Bytes) : ∃ chars pads,
    urlsafeEncode bytes = chars ++ List.replicate pads '=' ∧ pads ≤ 2 ∧
      (chars.length + pads) % 4 = 0 ∧ chars.length = (bytes.length * 4 + 2) / 3 ∧
      ∀ c ∈ chars, ∃ n < 64, c = urlsafeChar n := by
  induction bytes using urlsafeEncode.induct with
  | case1 => exact ⟨[], 0, rfl, by omega, rfl, rfl, by simp⟩
  | case2 a =>
    have ha := a.toNat_lt
    refine ⟨[urlsafeChar (a.toNat / 4), urlsafeChar (a.toNat % 4 * 16)], 2, rfl, by omega,
      by simp, by simp, ?_⟩
    simp only [List.mem_cons, List.not_mem_nil, or_false]
    rintro c (rfl | rfl)
    · exact ⟨_, by omega, rfl⟩
    · exact ⟨_, by omega, rfl⟩
  | case3 a b =>
    have ha := a.toNat_lt
    have hb := b.toNat_lt
    refine ⟨[urlsafeChar (a.toNat / 4), urlsafeChar (a.toNat % 4 * 16 + b.toNat / 16),
      urlsafeChar (b.toNat % 16 * 4)], 1, rfl, by omega, by simp, by simp, ?_⟩
    simp only [List.mem_cons, List.not_mem_nil, or_false]
    rintro c (rfl | rfl | rfl)
    · exact ⟨_, by omega, rfl⟩
    · exact ⟨_, by omega, rfl⟩
    · exact ⟨_, by omega, rfl⟩
  | case4 a b c bytes ih =>
    have ha := a.toNat_lt
    have hb := b.toNat_lt
    have hc := c.toNat_lt
    obtain ⟨chars, pads, heq, hpads, hmod, hlength, hall⟩ := ih
    refine ⟨urlsafeChar (a.toNat / 4) :: urlsafeChar (a.toNat % 4 * 16 + b.toNat / 16) ::
      urlsafeChar (b.toNat % 16 * 4 + c.toNat / 64) :: urlsafeChar (c.toNat % 64) :: chars, pads,
      ?_, hpads, ?_, ?_, ?_⟩
    · rw [urlsafeEncode, heq]
      rfl
    · simp only [List.length_cons]
      omega
    · simp only [List.length_cons]
      omega
    · simp only [List.mem_cons]
      rintro d (rfl | rfl | rfl | rfl | hd)
      · exact ⟨_, by omega, rfl⟩
      · exact ⟨_, by omega, rfl⟩
      · exact ⟨_, by omega, rfl⟩
      · exact ⟨_, by omega, rfl⟩
      · exact hall d hd

/-- **What was encoded is decoded.** -/
theorem urlsafeB64decode_urlsafeEncode (bytes : Bytes) :
    urlsafeB64decode (urlsafeEncode bytes) = some bytes := by
  obtain ⟨chars, pads, heq, -, -, -, hall⟩ := exists_urlsafeEncode bytes
  have hascii : (urlsafeEncode bytes).all fun c => decide (c.toNat < 128) := by
    rw [heq, List.all_eq_true]
    intro c hc
    rw [decide_eq_true_eq]
    rcases List.mem_append.mp hc with hc | hc
    · obtain ⟨n, hn, rfl⟩ := hall c hc
      exact urlsafeChar_ascii hn
    · rw [(List.mem_replicate.mp hc).2]
      decide
  rw [urlsafeB64decode, if_pos hascii, base64Loop_urlsafeEncode]
  rfl

/-- The encoding without its padding, as keys and signatures are written down. -/
def unpadded (bytes : Bytes) : List Char := (urlsafeEncode bytes).rdropWhile (· = '=')

/-- It is what comes before the padding. -/
theorem unpadded_eq {bytes : Bytes} {chars : List Char} {pads : ℕ}
    (heq : urlsafeEncode bytes = chars ++ List.replicate pads '=')
    (hall : ∀ c ∈ chars, ∃ n < 64, c = urlsafeChar n) : unpadded bytes = chars := by
  have hnone : chars.reverse.dropWhile (· = '=') = chars.reverse := by
    rcases hrev : chars.reverse with _ | ⟨c, rest⟩
    · rfl
    · obtain ⟨n, hn, rfl⟩ := hall c (List.mem_reverse.mp (hrev ▸ List.mem_cons_self))
      rw [List.dropWhile_cons_of_neg (by simpa using urlsafeChar_ne_pad hn)]
  rw [unpadded, heq, List.rdropWhile, List.reverse_append, List.reverse_replicate,
    List.dropWhile_append_of_pos (by simp), hnone, List.reverse_reverse]

/-- **The padding that was left out can be put back**, as the readers do. -/
theorem unpadded_append (bytes : Bytes) : unpadded bytes ++
    List.replicate ((4 - (unpadded bytes).length % 4) % 4) '=' = urlsafeEncode bytes := by
  obtain ⟨chars, pads, heq, hpads, hmod, -, hall⟩ := exists_urlsafeEncode bytes
  have hpad : (4 - chars.length % 4) % 4 = pads := by omega
  rw [unpadded_eq heq hall, heq, hpad]

/-- Four characters stand for three bytes. -/
theorem length_unpadded (bytes : Bytes) :
    (unpadded bytes).length = (bytes.length * 4 + 2) / 3 := by
  obtain ⟨chars, pads, heq, -, -, hlength, hall⟩ := exists_urlsafeEncode bytes
  rw [unpadded_eq heq hall, hlength]

/-- **Reading undoes writing.** -/
theorem urlsafeB64decode_unpadded (bytes : Bytes) : urlsafeB64decode (unpadded bytes ++
    List.replicate ((4 - (unpadded bytes).length % 4) % 4) '=') = some bytes := by
  rw [unpadded_append, urlsafeB64decode_urlsafeEncode]

/-! ### Hexadecimal -/

/-- `bytes.hex`: two lowercase digits for each byte. -/
def toHex : Bytes → List Char
  | [] => []
  | b :: bytes => Nat.digitChar (b.toNat / 16) :: Nat.digitChar (b.toNat % 16) :: toHex bytes

theorem hexDigit_digitChar {n : ℕ} (hn : n < 16) :
    hexDigit (Nat.digitChar n) = some n ∧ isBlank (Nat.digitChar n) = false := by
  have hall : ∀ i : Fin 16, hexDigit (Nat.digitChar i) = some i.val ∧
      isBlank (Nat.digitChar i) = false := by decide +kernel
  exact hall ⟨n, hn⟩

theorem length_toHex (bytes : Bytes) : (toHex bytes).length = 2 * bytes.length := by
  induction bytes with
  | nil => rfl
  | cons b bytes ih =>
    rw [toHex, List.length_cons, List.length_cons, List.length_cons, ih]
    omega

/-- **Reading undoes writing.** -/
theorem fromHex_toHex (bytes : Bytes) : fromHex (toHex bytes) = some bytes := by
  induction bytes with
  | nil => rfl
  | cons b bytes ih =>
    have hb := b.toNat_lt
    obtain ⟨hhigh, hblank⟩ := hexDigit_digitChar (n := b.toNat / 16) (by omega)
    obtain ⟨hlow, -⟩ := hexDigit_digitChar (n := b.toNat % 16) (by omega)
    rw [toHex, fromHex, if_neg (by rw [hblank]; decide), hhigh, hlow]
    dsimp only
    rw [ih, ofNat_eq (b := b) (by omega)]
    rfl

end PowerfarmKernel
