import Mathlib.Data.List.Basic

/-!
# Base64 for URLs

The encoding of bytes by the characters of URLs (`Base64.urlsafeEncode`): three bytes are
four characters of six bits, and what is left over at the end is padded with `=`.
`Base64.urlsafeEncode_injective` says that no two byte strings have one encoding.
-/

namespace Base64

/-- The character for six bits. -/
def urlsafeChar (n : ℕ) : Char :=
  if n < 26 then Char.ofNat (n + 65)
  else if n < 52 then Char.ofNat (n - 26 + 97)
  else if n < 62 then Char.ofNat (n - 52 + 48)
  else if n = 62 then '-' else '_'

/-- **The encoding of some bytes**, padded to a multiple of four characters. -/
def urlsafeEncode : List UInt8 → List Char
  | [] => []
  | [a] => [urlsafeChar (a.toNat / 4), urlsafeChar (a.toNat % 4 * 16), '=', '=']
  | [a, b] => [urlsafeChar (a.toNat / 4), urlsafeChar (a.toNat % 4 * 16 + b.toNat / 16),
      urlsafeChar (b.toNat % 16 * 4), '=']
  | a :: b :: c :: bytes => urlsafeChar (a.toNat / 4) ::
      urlsafeChar (a.toNat % 4 * 16 + b.toNat / 16) ::
      urlsafeChar (b.toNat % 16 * 4 + c.toNat / 64) :: urlsafeChar (c.toNat % 64) ::
      urlsafeEncode bytes

/-- Six bits have a character of their own. -/
theorem urlsafeChar_inj {m n : ℕ} (hm : m < 64) (hn : n < 64)
    (h : urlsafeChar m = urlsafeChar n) : m = n := by
  have hall : ∀ i j : Fin 64, urlsafeChar i = urlsafeChar j → i = j := by decide +kernel
  exact congrArg Fin.val (hall ⟨m, hm⟩ ⟨n, hn⟩ h)

/-- The padding is the character of no six bits. -/
theorem urlsafeChar_ne_pad {n : ℕ} (hn : n < 64) : urlsafeChar n ≠ '=' := by
  have hall : ∀ i : Fin 64, urlsafeChar i ≠ '=' := by decide +kernel
  exact hall ⟨n, hn⟩

/-- The first two characters of a group have the first byte, and what they have of the
second. -/
theorem eq_of_first_two {a a' : ℕ} (m m' : ℕ) (ha : a < 256) (ha' : a' < 256) (hm : m < 16)
    (hm' : m' < 16) (h₁ : urlsafeChar (a / 4) = urlsafeChar (a' / 4))
    (h₂ : urlsafeChar (a % 4 * 16 + m) = urlsafeChar (a' % 4 * 16 + m')) : a = a' ∧ m = m' := by
  have hdiv := urlsafeChar_inj (by omega) (by omega) h₁
  have hmod := urlsafeChar_inj (by omega) (by omega) h₂
  omega

/-- The third character of a group has the rest of the second byte, and what it has of the
third. -/
theorem eq_of_third {b b' : ℕ} (m m' : ℕ) (hm : m < 4) (hm' : m' < 4)
    (hdiv : b / 16 = b' / 16)
    (h₃ : urlsafeChar (b % 16 * 4 + m) = urlsafeChar (b' % 16 * 4 + m')) : b = b' ∧ m = m' := by
  have hmod := urlsafeChar_inj (by omega) (by omega) h₃
  omega

/-- **No two byte strings have one encoding.** -/
theorem urlsafeEncode_injective : Function.Injective urlsafeEncode := by
  intro l
  induction l using urlsafeEncode.induct with
  | case1 =>
    intro l' h
    rcases l' with _ | ⟨a', _ | ⟨b', _ | ⟨c', l'⟩⟩⟩
    · rfl
    all_goals cases h
  | case2 a =>
    intro l' h
    have ha := a.toNat_lt
    rcases l' with _ | ⟨a', _ | ⟨b', _ | ⟨c', l'⟩⟩⟩
    · cases h
    · simp only [urlsafeEncode, List.cons.injEq] at h
      have ha' := a'.toNat_lt
      have heq := eq_of_first_two 0 0 ha ha' (by omega) (by omega) h.1 h.2.1
      rw [UInt8.toNat_inj.mp heq.1]
    · -- Where one text is padded, the other has a character.
      simp only [urlsafeEncode, List.cons.injEq] at h
      exact absurd h.2.2.1.symm (urlsafeChar_ne_pad (by omega))
    · simp only [urlsafeEncode, List.cons.injEq] at h
      have hc' := c'.toNat_lt
      exact absurd h.2.2.1.symm (urlsafeChar_ne_pad (by omega))
  | case3 a b =>
    intro l' h
    have ha := a.toNat_lt
    have hb := b.toNat_lt
    rcases l' with _ | ⟨a', _ | ⟨b', _ | ⟨c', l'⟩⟩⟩
    · cases h
    · simp only [urlsafeEncode, List.cons.injEq] at h
      exact absurd h.2.2.1 (urlsafeChar_ne_pad (by omega))
    · simp only [urlsafeEncode, List.cons.injEq] at h
      have ha' := a'.toNat_lt
      have hb' := b'.toNat_lt
      obtain ⟨haa, hdiv⟩ := eq_of_first_two _ _ ha ha' (by omega) (by omega) h.1 h.2.1
      have hbb := (eq_of_third 0 0 (by omega) (by omega) hdiv h.2.2.1).1
      rw [UInt8.toNat_inj.mp haa, UInt8.toNat_inj.mp hbb]
    · simp only [urlsafeEncode, List.cons.injEq] at h
      exact absurd h.2.2.2.1.symm (urlsafeChar_ne_pad (by omega))
  | case4 a b c l ih =>
    intro l' h
    have ha := a.toNat_lt
    have hb := b.toNat_lt
    have hc := c.toNat_lt
    rcases l' with _ | ⟨a', _ | ⟨b', _ | ⟨c', l'⟩⟩⟩
    · cases h
    · simp only [urlsafeEncode, List.cons.injEq] at h
      exact absurd h.2.2.1 (urlsafeChar_ne_pad (by omega))
    · simp only [urlsafeEncode, List.cons.injEq] at h
      exact absurd h.2.2.2.1 (urlsafeChar_ne_pad (by omega))
    · simp only [urlsafeEncode, List.cons.injEq] at h
      have ha' := a'.toNat_lt
      have hb' := b'.toNat_lt
      have hc' := c'.toNat_lt
      obtain ⟨haa, hdiv⟩ := eq_of_first_two _ _ ha ha' (by omega) (by omega) h.1 h.2.1
      obtain ⟨hbb, hdiv'⟩ := eq_of_third _ _ (by omega) (by omega) hdiv h.2.2.1
      have hmod := urlsafeChar_inj (by omega) (by omega) h.2.2.2.1
      have hcc : c.toNat = c'.toNat := by omega
      rw [UInt8.toNat_inj.mp haa, UInt8.toNat_inj.mp hbb, UInt8.toNat_inj.mp hcc,
        ih h.2.2.2.2]

end Base64
