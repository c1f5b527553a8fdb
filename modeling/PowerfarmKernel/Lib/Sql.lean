import Mathlib.Data.List.Dedup
import Mathlib.Data.List.DropRight
import Mathlib.Data.Option.NAry

/-!
# Values of a database

What a function inside a database computes with. Every value may be missing (`NULL`), and
a comparison with a missing value is neither true nor false: `Sql.Truth` has three values.
A guard and a `where` ask whether a truth *holds*, so they let pass what is unknown
(`Sql.Truth.Holds`), while a `check` constraint only asks that it is not false.

A `jsonb` value is a tree (`Sql.Jsonb`). A string prints between quotation marks, with the
marks inside it escaped. So what is left when the marks are trimmed off is the string
itself exactly when there was nothing to escape (`Sql.trimBoth_quoted_eq_iff`).
-/

namespace Sql

/-! ### Truth -/

/-- **A truth value**: true, false, or unknown. -/
abbrev Truth := Option Bool

namespace Truth

/-- `not`. -/
def not (a : Truth) : Truth := a.map Bool.not

/-- `or`: true when one side is true, whatever the other is. -/
def or : Truth → Truth → Truth
  | some true, _ => some true
  | _, some true => some true
  | some false, some false => some false
  | _, _ => none

/-- `and`: false when one side is false, whatever the other is. -/
def and : Truth → Truth → Truth
  | some false, _ => some false
  | _, some false => some false
  | some true, some true => some true
  | _, _ => none

/-- A guard is taken, a row is chosen. -/
def Holds (a : Truth) : Prop := a = some true

instance (a : Truth) : Decidable a.Holds := inferInstanceAs (Decidable (a = some true))

/-- A constraint is broken. -/
def Fails (a : Truth) : Prop := a = some false

instance (a : Truth) : Decidable a.Fails := inferInstanceAs (Decidable (a = some false))

@[simp] theorem holds_some {b : Bool} : Holds (some b) ↔ b = true := Option.some_inj

@[simp] theorem not_holds_none : ¬Holds none := nofun

@[simp] theorem fails_some {b : Bool} : Fails (some b) ↔ b = false := Option.some_inj

@[simp] theorem holds_not {a : Truth} : a.not.Holds ↔ a.Fails := by
  rcases a with _ | _ | _ <;> simp [not, Holds, Fails]

@[simp] theorem holds_or {a b : Truth} : (a.or b).Holds ↔ a.Holds ∨ b.Holds := by
  rcases a with _ | _ | _ <;> rcases b with _ | _ | _ <;> simp [or, Holds]

@[simp] theorem holds_and {a b : Truth} : (a.and b).Holds ↔ a.Holds ∧ b.Holds := by
  rcases a with _ | _ | _ <;> rcases b with _ | _ | _ <;> simp [and, Holds]

@[simp] theorem fails_and {a b : Truth} : (a.and b).Fails ↔ a.Fails ∨ b.Fails := by
  rcases a with _ | _ | _ <;> rcases b with _ | _ | _ <;> simp [and, Fails]

end Truth

/-- `=`: unknown when a side is missing. -/
def equals {α : Type} [DecidableEq α] (a b : Option α) : Truth :=
  Option.map₂ (fun x y => decide (x = y)) a b

@[simp] theorem holds_equals {α : Type} [DecidableEq α] {a : α} {b : Option α} :
    (equals (some a) b).Holds ↔ b = some a := by
  rcases b with _ | b
  · exact iff_of_false Truth.not_holds_none nofun
  · show some (decide (a = b)) = some true ↔ some b = some a
    rw [Option.some_inj, Option.some_inj, decide_eq_true_eq, eq_comm]

/-! ### Trees -/

/-- **A `jsonb` value.** A number is kept by its text. -/
inductive Jsonb where
  | null : Jsonb
  | bool (b : Bool) : Jsonb
  | number (text : String) : Jsonb
  | string (s : String) : Jsonb
  | array (items : List Jsonb) : Jsonb
  | object (fields : List (String × Jsonb)) : Jsonb

/-- The mark a string is printed between. -/
def quote : Char := Char.ofNat 34

/-- The mark of an escape. -/
def backslash : Char := Char.ofNat 92

/-- A digit of an escape in hexadecimal. -/
def hexChar (n : ℕ) : Char := Char.ofNat (if n < 10 then 48 + n else 87 + n)

/-- How a character of a string is printed. -/
def escapeChar (c : Char) : List Char :=
  if c = quote ∨ c = backslash then [backslash, c]
  else if c.toNat = 8 then [backslash, 'b']
  else if c.toNat = 9 then [backslash, 't']
  else if c.toNat = 10 then [backslash, 'n']
  else if c.toNat = 12 then [backslash, 'f']
  else if c.toNat = 13 then [backslash, 'r']
  else if c.toNat < 32 then
    [backslash, 'u', '0', '0', hexChar (c.toNat / 16), hexChar (c.toNat % 16)]
  else [c]

/-- A string as it is printed. -/
def quoted (s : String) : List Char := quote :: (s.toList.flatMap escapeChar ++ [quote])

/-- `trim(both c from l)`. -/
def trimBoth (c : Char) (l : List Char) : List Char :=
  (l.dropWhile (· = c)).rdropWhile (· = c)

namespace Jsonb

/-- `jsonb_typeof`. -/
def typeof : Jsonb → String
  | null => "null"
  | bool _ => "boolean"
  | number _ => "number"
  | string _ => "string"
  | array _ => "array"
  | object _ => "object"

mutual

/-- `value::text`. -/
def text : Jsonb → List Char
  | null => ['n', 'u', 'l', 'l']
  | bool true => ['t', 'r', 'u', 'e']
  | bool false => ['f', 'a', 'l', 's', 'e']
  | number t => t.toList
  | string s => quoted s
  | array items => ['['] ++ textItems items ++ [']']
  | object fields => [Char.ofNat 123] ++ textFields fields ++ [Char.ofNat 125]

/-- The items of an array, with commas between them. -/
def textItems : List Jsonb → List Char
  | [] => []
  | [item] => item.text
  | item :: next :: items => item.text ++ [',', ' '] ++ textItems (next :: items)

/-- The fields of an object, with commas between them. -/
def textFields : List (String × Jsonb) → List Char
  | [] => []
  | [(key, value)] => quoted key ++ [':', ' '] ++ value.text
  | (key, value) :: next :: fields =>
      quoted key ++ [':', ' '] ++ value.text ++ [',', ' '] ++ textFields (next :: fields)

end

/-- `value ? key`. -/
def hasKey : Jsonb → String → Bool
  | string s, key => s = key
  | array items, key => items.any fun item => match item with
      | string s => s = key
      | _ => false
  | object fields, key => fields.any fun f => f.1 = key
  | _, _ => false

/-- An item as `jsonb_array_elements_text` gives it: a string without its marks, and
`null` as a missing value. -/
def itemText : Jsonb → Option String
  | null => none
  | string s => some s
  | value => some (String.ofList value.text)

/-- `jsonb_array_elements_text`. -/
def elementsText : Jsonb → Except String (List (Option String))
  | array items => .ok (items.map itemText)
  | object _ => .error "cannot extract elements from an object"
  | _ => .error "cannot extract elements from a scalar"

/-- `jsonb_array_length`. -/
def arrayLength : Jsonb → Except String ℕ
  | array items => .ok items.length
  | object _ => .error "cannot get array length of a non-array"
  | _ => .error "cannot get array length of a scalar"

/-- An array of strings. -/
def strings (l : List String) : Jsonb := array (l.map string)

variable {l l' : List String}

@[simp] theorem strings_inj : strings l = strings l' ↔ l = l' := by
  have hinj : Function.Injective string := fun _ _ h => string.inj h
  rw [strings, strings, array.injEq, hinj.list_map.eq_iff]

@[simp] theorem hasKey_strings {key : String} : (strings l).hasKey key = true ↔ key ∈ l := by
  simp [strings, hasKey]

@[simp] theorem elementsText_strings : (strings l).elementsText = .ok (l.map some) := by
  rw [strings, elementsText, List.map_map]
  rfl

@[simp] theorem arrayLength_strings : (strings l).arrayLength = .ok l.length := by
  rw [strings, arrayLength, List.length_map]

/-- A list of strings, from what each of its items is. -/
theorem exists_strings {items : List Jsonb} (h : ∀ item ∈ items, item.typeof = "string") :
    ∃ l, items = List.map string l := by
  induction items with
  | nil => exact ⟨[], rfl⟩
  | cons item items ih =>
    obtain ⟨l, rfl⟩ := ih fun item hitem => h item (List.mem_cons_of_mem _ hitem)
    have hitem := h item List.mem_cons_self
    cases item with
    | string s => exact ⟨s :: l, rfl⟩
    | _ => simp [typeof] at hitem

end Jsonb

/-! ### Trimming a printed string -/

/-- A character printed as it is. -/
def Plain (c : Char) : Prop := escapeChar c = [c]

/-- What is printed with an escape shows its mark. -/
theorem backslash_mem_escapeChar {c : Char} (h : ¬Plain c) : backslash ∈ escapeChar c := by
  rw [Plain] at h
  unfold escapeChar at h ⊢
  split_ifs at h ⊢ <;> simp_all

theorem not_plain_quote : ¬Plain quote := by
  simp [Plain, escapeChar]

theorem not_plain_backslash : ¬Plain backslash := by
  simp [Plain, escapeChar]

theorem flatMap_escapeChar {l : List Char} (h : ∀ c ∈ l, Plain c) : l.flatMap escapeChar = l := by
  induction l with
  | nil => rfl
  | cons c l ih =>
    rw [List.flatMap_cons, h c List.mem_cons_self,
      ih fun c hc => h c (List.mem_cons_of_mem _ hc), List.singleton_append]

/-- Trimming takes nothing but the mark away. -/
theorem mem_trimBoth {c d : Char} {l : List Char} (h : d ∈ l) (hd : d ≠ c) : d ∈ trimBoth c l := by
  have hdrop : d ∈ l.dropWhile (· = c) := by
    rw [← List.takeWhile_append_dropWhile (p := (· = c)) (l := l), List.mem_append] at h
    refine h.resolve_left fun htake => hd ?_
    simpa using List.mem_takeWhile_imp htake
  rw [trimBoth, List.rdropWhile, List.mem_reverse]
  rw [← List.mem_reverse,
    ← List.takeWhile_append_dropWhile (p := (· = c)) (l := (l.dropWhile (· = c)).reverse),
    List.mem_append] at hdrop
  refine hdrop.resolve_left fun htake => hd ?_
  simpa using List.mem_takeWhile_imp htake

/-- Between two marks, what has no mark at its ends is what trimming leaves. -/
theorem trimBoth_between {c : Char} {l : List Char} (h : c ∉ l) :
    trimBoth c (c :: (l ++ [c])) = l := by
  have hdrop : (l ++ [c]).dropWhile (· = c) = if l = [] then [] else l ++ [c] := by
    rcases l with _ | ⟨d, l⟩
    · simp
    · have hd : d ≠ c := fun heq => h (heq ▸ List.mem_cons_self)
      simp [hd]
  have hlast : l.rdropWhile (· = c) = l := by
    rw [List.rdropWhile_eq_self_iff]
    intro hne
    rw [decide_eq_true_eq]
    exact fun heq => h (heq ▸ List.getLast_mem hne)
  rw [trimBoth, List.dropWhile_cons_of_pos (by simp), hdrop]
  split
  · subst l
    rfl
  · rw [List.rdropWhile_concat_pos _ _ _ (by simp), hlast]

/-- **What is left of a printed string** is a text without escapes exactly when the string
is that text. -/
theorem trimBoth_quoted_eq_iff {s : String} {w : List Char} (hw : ∀ c ∈ w, Plain c) :
    trimBoth quote (quoted s) = w ↔ s.toList = w := by
  have hback : ∀ l : List Char, (∀ c ∈ l, Plain c) → trimBoth quote
      (quote :: (l.flatMap escapeChar ++ [quote])) = l := by
    intro l hl
    rw [flatMap_escapeChar hl]
    exact trimBoth_between fun hq => not_plain_quote (hl _ hq)
  constructor
  · intro h
    have hplain : ∀ c ∈ s.toList, Plain c := by
      intro c hc
      by_contra hnot
      have hmem : backslash ∈ trimBoth quote (quoted s) := by
        refine mem_trimBoth (List.mem_cons_of_mem _ (List.mem_append_left _ ?_)) (by decide)
        exact List.mem_flatMap.mpr ⟨c, hc, backslash_mem_escapeChar hnot⟩
      rw [h] at hmem
      exact not_plain_backslash (hw _ hmem)
    rw [← h]
    exact (hback _ hplain).symm
  · rintro rfl
    exact hback _ hw

end Sql
