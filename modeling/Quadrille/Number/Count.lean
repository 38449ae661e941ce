/-!
# Counts and colors

Unsigned whole numbers with an upper limit, as they are typed for a color, a number of rows or a
number of steps: an optional plus sign and digits. A text is read from the left and the first thing
wrong with it decides the complaint, so a text that outgrows the limit before its first stray
character is too large, and one with an earlier stray character is no number.
-/

namespace Quadrille

/-- Why a text is not a count. -/
inductive CountError where
  /-- There is nothing to read. -/
  | empty
  /-- A character is not a digit. -/
  | invalidDigit
  /-- The number is above the limit. -/
  | tooLarge
  deriving DecidableEq, Repr

/-- The wording of a complaint about a count. -/
def CountError.message : CountError → String
  | .empty => "cannot parse integer from empty string"
  | .invalidDigit => "invalid digit found in string"
  | .tooLarge => "number too large to fit in target type"

namespace Count

/-- The largest number of rows, columns or steps: what fits a 64-bit word. -/
def largest : Nat := 0xFFFFFFFFFFFFFFFF

/-- The largest color: what fits a 32-bit word. -/
def largestColor : Nat := 0xFFFFFFFF

/-- The value of a digit, in a base of at most sixteen. -/
def digitValue? (base : Nat) (c : Char) : Option Nat :=
  let code := c.toNat
  let value? :=
    if '0'.toNat ≤ code ∧ code ≤ '9'.toNat then some (code - '0'.toNat)
    else if 'a'.toNat ≤ code ∧ code ≤ 'f'.toNat then some (code - 'a'.toNat + 10)
    else if 'A'.toNat ≤ code ∧ code ≤ 'F'.toNat then some (code - 'A'.toNat + 10)
    else none
  value?.filter (· < base)

/-- Reads digits onto the number read so far. -/
def readDigits (base limit : Nat) : (soFar : Nat) → List Char → Except CountError Nat
  | soFar, [] => .ok soFar
  | soFar, c :: cs =>
    match digitValue? base c with
    | none => .error .invalidDigit
    | some d =>
      if soFar * base + d ≤ limit then readDigits base limit (soFar * base + d) cs
      else .error .tooLarge

/-- Reads a count of at most `limit`, in the given base. A sign alone is not a number, and a minus
sign is a stray character. -/
def read (base limit : Nat) : List Char → Except CountError Nat
  | [] => .error .empty
  | ['+'] => .error .invalidDigit
  | '+' :: cs => readDigits base limit 0 cs
  | cs => readDigits base limit 0 cs

/-- The decimal count that a text writes, if it is one. -/
def ofText? (limit : Nat) (cs : List Char) : Option Nat :=
  (read 10 limit cs).toOption

theorem readDigits_le {base limit soFar n : Nat} {cs : List Char} (h : soFar ≤ limit)
    (hn : readDigits base limit soFar cs = .ok n) : n ≤ limit := by
  induction cs generalizing soFar with
  | nil => simp only [readDigits, Except.ok.injEq] at hn; omega
  | cons c cs ih =>
    simp only [readDigits] at hn
    split at hn
    · simp at hn
    · split at hn
      · exact ih ‹_› hn
      · simp at hn

/-- What has been read never exceeds the limit. -/
theorem read_le {base limit n : Nat} {cs : List Char} (hn : read base limit cs = .ok n) :
    n ≤ limit := by
  unfold read at hn
  split at hn
  · simp at hn
  · simp at hn
  · exact readDigits_le (Nat.zero_le _) hn
  · exact readDigits_le (Nat.zero_le _) hn

end Count

end Quadrille
