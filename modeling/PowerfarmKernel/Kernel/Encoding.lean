import PowerfarmKernel.Kernel.Canon

/-!
# Texts of bytes

The two text forms of bytes that the repository reads – hexadecimal digits and
base64url – as the Python standard library decodes them.
-/

namespace PowerfarmKernel

/-! ### Hexadecimal -/

/-- `HASH_PATTERN`: 64 lowercase hexadecimal digits. -/
def isHash (value : String) : Bool :=
  value.toList.length = 64 ∧ value.toList.all fun c =>
    decide (('0' ≤ c ∧ c ≤ '9') ∨ ('a' ≤ c ∧ c ≤ 'f'))

/-- The value of a hexadecimal digit. -/
def hexDigit (c : Char) : Option ℕ :=
  if '0' ≤ c ∧ c ≤ '9' then some (c.toNat - 48)
  else if 'a' ≤ c ∧ c ≤ 'f' then some (c.toNat - 87)
  else if 'A' ≤ c ∧ c ≤ 'F' then some (c.toNat - 55)
  else none

/-- A blank, or one of the five control characters from tab to carriage return. -/
def isBlank (c : Char) : Bool := c = ' ' ∨ (9 ≤ c.toNat ∧ c.toNat ≤ 13)

/-- `bytes.fromhex`, or nothing where it raises. Blanks between the bytes are skipped. -/
def fromHex : List Char → Option Bytes
  | [] => some []
  | [c] => if isBlank c then some [] else none
  | c :: d :: rest =>
      if isBlank c then fromHex (d :: rest)
      else match hexDigit c, hexDigit d with
        | some high, some low => (fromHex rest).map fun bytes => .ofNat (high * 16 + low) :: bytes
        | _, _ => none

/-! ### Base64 -/

/-- The six bits a character of the base64url alphabet stands for. The decoder
translates that alphabet to the standard one, so the standard characters stand for the
same bits. -/
def base64Digit (c : Char) : Option ℕ :=
  if 'A' ≤ c ∧ c ≤ 'Z' then some (c.toNat - 65)
  else if 'a' ≤ c ∧ c ≤ 'z' then some (c.toNat - 97 + 26)
  else if '0' ≤ c ∧ c ≤ '9' then some (c.toNat - 48 + 52)
  else if c = '-' ∨ c = '+' then some 62
  else if c = '_' ∨ c = '/' then some 63
  else none

/-- The decoder's loop, over its position in the group of four, the bits left over, and
the padding seen in this group. Characters outside the alphabet are skipped, and
padding that completes a group ends the input. -/
def base64Loop : List Char → ℕ → ℕ → ℕ → Bytes → Option Bytes
  | [], quad, _, _, out => if quad = 0 then some out.reverse else none
  | c :: rest, quad, left, pads, out =>
      if c = '=' then
        if 2 ≤ quad then
          if 4 ≤ quad + (pads + 1) then some out.reverse
          else base64Loop rest quad left (pads + 1) out
        else base64Loop rest quad left pads out
      else match base64Digit c with
        | none => base64Loop rest quad left pads out
        | some digit =>
            match quad with
            | 0 => base64Loop rest 1 digit 0 out
            | 1 => base64Loop rest 2 (digit % 16) 0 (.ofNat (left * 4 + digit / 16) :: out)
            | 2 => base64Loop rest 3 (digit % 4) 0 (.ofNat (left * 16 + digit / 4) :: out)
            | _ => base64Loop rest 0 0 0 (.ofNat (left * 64 + digit) :: out)

/-- `base64.urlsafe_b64decode`, or nothing where it raises. -/
def urlsafeB64decode (value : List Char) : Option Bytes :=
  if value.all fun c => decide (c.toNat < 128) then base64Loop value 0 0 0 [] else none

end PowerfarmKernel
