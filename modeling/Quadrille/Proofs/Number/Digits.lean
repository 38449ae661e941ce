import Mathlib.Data.List.Forall2
import Mathlib.Data.List.Induction
import Mathlib.Data.List.TakeWhile
import Mathlib.Data.Nat.Digits.Defs
import Mathlib.Tactic.Ring
import Quadrille.Cell
import Quadrille.Number.Digit
import Quadrille.Proofs.Text.Runs
import Quadrille.Proofs.Traversal

/-!
# Written numbers read back

A number written in as many digits as it has reads back as itself, by either of the two readers:
`Digits.leading`, which takes the digits off a text and leaves their value to whoever asks, and
`Count.readDigits`, which adds them up as it goes and checks the limit at every digit.

## Main results

* `Digits.value_ofNat_count`, `Digits.ofNat_count_value` — the digits of a number write the number,
  and the number that a run of digits writes has the same digits but for zeros in front
* `Digits.leading_toChars_append` — digits are taken off the front of a text completely
* `Count.read_eq_ok_iff`, `Count.ofText?_eq_some_iff` — the texts that are read as a number within
  the limit, in any base and in base ten
-/

namespace Quadrille

namespace Digit

@[simp]
theorem ofChar?_toChar (d : Digit) : ofChar? d.toChar = some d := by
  revert d
  decide

theorem toChar_of_ofChar? {c : Char} {d : Digit} (h : ofChar? c = some d) : d.toChar = c := by
  rw [ofChar?] at h
  split at h
  · next hc =>
    obtain rfl := Option.some.inj h
    have code : '0'.toNat + (c.toNat - '0'.toNat) = c.toNat := Nat.add_sub_cancel' hc.1
    rw [toChar, code, Char.ofNat_toNat]
  · simp at h

theorem isBlank_toChar (d : Digit) : Text.isBlank d.toChar = false := by
  revert d
  decide

theorem toChar_ne_minus (d : Digit) : d.toChar ≠ '-' := by
  revert d
  decide

theorem toChar_ne_plus (d : Digit) : d.toChar ≠ '+' := by
  revert d
  decide

end Digit

namespace Digits

/-- A number has enough digits. -/
theorem lt_pow_count (n : Nat) : n < Nat.pow 10 (count n) := by
  induction n using count.induct with
  | case1 n h =>
    rw [count, if_pos h]
    exact h
  | case2 n h ih =>
    have wider : Nat.pow 10 (count (n / 10) + 1) = Nat.pow 10 (count (n / 10)) * 10 := rfl
    rw [count, if_neg h, wider]
    omega

theorem count_pos (n : Nat) : 0 < count n := by
  rw [count]
  split <;> omega

/-- A positive number has as many digits as it needs. -/
theorem exists_count_eq {n : Nat} (hn : 0 < n) :
    ∃ k, count n = k + 1 ∧ 10 ^ k ≤ n ∧ n < 10 ^ (k + 1) := by
  induction n using count.induct with
  | case1 n h => exact ⟨0, by rw [count, if_pos h], hn, h⟩
  | case2 n h ih =>
    obtain ⟨k, hk, least, most⟩ := ih (by omega)
    refine ⟨k + 1, by rw [count, if_neg h, hk], ?_, ?_⟩
    · rw [Nat.pow_succ]
      omega
    · rw [Nat.pow_succ]
      omega

/-- **The digits of a number** write the number. -/
@[simp]
theorem value_ofNat_count (n : Nat) : value (ofNat (count n) n) = n := by
  rw [value_ofNat, Nat.mod_eq_of_lt (lt_pow_count n)]

/-- Leading zeros do not matter. -/
theorem value_replicate_append (zeros : Nat) (ds : List Digit) :
    value (List.replicate zeros 0 ++ ds) = value ds := by
  induction zeros with
  | zero => rfl
  | succ zeros ih => exact ih

/-- What is added up from the left is the number in positional notation. -/
theorem foldl_eq_ofDigits (base : Nat) (values : List Nat) :
    values.foldl (fun n d => n * base + d) 0 = Nat.ofDigits base values.reverse := by
  rw [Nat.ofDigits_eq_foldr, List.foldr_reverse]
  congr 1
  funext n d
  simp [Nat.mul_comm, Nat.add_comm]

/-- The number that a run of digits writes is the one that it stands for in positional notation. -/
theorem value_eq_ofDigits (ds : List Digit) :
    value ds = Nat.ofDigits 10 (ds.map Fin.val).reverse := by
  rw [← foldl_eq_ofDigits, List.foldl_map, value]
  simp only [Nat.mul_comm]

theorem value_dropWhile (ds : List Digit) : value (ds.dropWhile (· == 0)) = value ds := by
  induction ds with
  | nil => rfl
  | cons d ds ih =>
    by_cases hd : d = 0
    · subst hd
      exact ih
    · rw [List.dropWhile_cons_of_neg (by simpa using hd)]

theorem value_pos {ds : List Digit} (h : ∃ d ∈ ds.head?, d ≠ 0) : 0 < value ds := by
  obtain ⟨d, hd, hne⟩ := h
  obtain ⟨ds, rfl⟩ := List.head?_eq_some_iff.mp hd
  have first : 0 < d.val := Nat.pos_of_ne_zero fun h => hne (Fin.ext h)
  have grown := le_foldl_digits ds (10 * 0 + d.val)
  rw [value, List.foldl_cons]
  omega

/-- A run of digits is got back from the number that it writes. -/
theorem ofNat_length_value (ds : List Digit) : ofNat ds.length (value ds) = ds := by
  induction ds using List.reverseRecOn with
  | nil => rfl
  | append_singleton ds d ih =>
    have hd := d.isLt
    have front : (10 * value ds + d.val) / 10 = value ds := by omega
    have last : (10 * value ds + d.val) % 10 = d.val := by omega
    rw [List.length_append, List.length_singleton, value_append_singleton, ofNat, front, ih]
    simp [last]

/-- A run of digits that does not begin with a zero is as long as the number that it writes. -/
theorem count_value {ds : List Digit} (h : ∃ d ∈ ds.head?, d ≠ 0) :
    count (value ds) = ds.length := by
  induction ds using List.reverseRecOn with
  | nil => simp at h
  | append_singleton ds d ih =>
    have hd := d.isLt
    rw [value_append_singleton, List.length_append, List.length_singleton, count]
    cases ds with
    | nil => exact if_pos (by simp [value])
    | cons e es =>
      have hlong : ∃ d ∈ (e :: es).head?, d ≠ 0 := h
      have hpos := value_pos hlong
      have front : (10 * value (e :: es) + d.val) / 10 = value (e :: es) := by omega
      rw [if_neg (by omega), front, ih hlong]

/-- **Written out again,** a run of digits loses the zeros that it begins with. -/
theorem ofNat_count_value {ds : List Digit} (h : 0 < value ds) :
    ofNat (count (value ds)) (value ds) = ds.dropWhile (· == 0) := by
  rw [← value_dropWhile] at h ⊢
  have hhead : ∃ d ∈ (ds.dropWhile (· == 0)).head?, d ≠ 0 := by
    cases hds : ds.dropWhile (· == 0) with
    | nil => simp [hds, value] at h
    | cons d es =>
      have := List.head?_dropWhile_not (· == 0) ds
      simp_all
  rw [count_value hhead, ofNat_length_value]

theorem value_lt_pow (ds : List Digit) : value ds < 10 ^ ds.length := by
  have padded := value_ofNat ds.length (value ds)
  rw [ofNat_length_value] at padded
  rw [padded]
  exact Nat.mod_lt _ (Nat.pow_pos (by decide))

/-- A number in as many digits as it needs begins with one that is not zero. -/
theorem exists_head?_ne_zero {ds : List Digit} {n : Nat} (hlength : ds.length = n + 1)
    (h : 10 ^ n ≤ value ds) : ∃ d ∈ ds.head?, d ≠ 0 := by
  obtain ⟨d, ds, rfl⟩ := List.exists_cons_of_length_eq_add_one hlength
  refine ⟨d, rfl, ?_⟩
  rintro rfl
  have hvalue : value (0 :: ds) = value ds := value_replicate_append 1 ds
  have hlt := value_lt_pow ds
  rw [List.length_cons, Nat.succ_inj] at hlength
  rw [hlength] at hlt
  omega

theorem value_append (xs ys : List Digit) :
    value (xs ++ ys) = value xs * 10 ^ ys.length + value ys := by
  induction ys using List.reverseRecOn with
  | nil => simp [value]
  | append_singleton ys d ih =>
    rw [← List.append_assoc, value_append_singleton, ih, value_append_singleton,
      List.length_append, List.length_singleton, Nat.pow_succ]
    ring

theorem value_append_replicate (ds : List Digit) (zeros : Nat) :
    value (ds ++ List.replicate zeros 0) = value ds * 10 ^ zeros := by
  have hzero : value (List.replicate zeros 0) = 0 := by
    simpa [value] using value_replicate_append zeros []
  rw [value_append, List.length_replicate, hzero, Nat.add_zero]

/-- Only zeros are dropped. -/
theorem exists_dropTrailingZeros_append (ds : List Digit) :
    ∃ zeros, dropTrailingZeros ds ++ List.replicate zeros 0 = ds := by
  refine ⟨(ds.reverse.takeWhile (· == 0)).length, ?_⟩
  have dropped : ds.reverse.takeWhile (· == 0) =
      List.replicate (ds.reverse.takeWhile (· == 0)).length 0 :=
    List.eq_replicate_of_mem fun d hd => by simpa using List.mem_takeWhile_imp hd
  rw [dropTrailingZeros, ← List.reverse_replicate, ← dropped, ← List.reverse_append,
    List.takeWhile_append_dropWhile, List.reverse_reverse]

/-- The first digit stays, unless it is a zero. -/
theorem head?_dropTrailingZeros {ds : List Digit} (h : ∃ d ∈ ds.head?, d ≠ 0) :
    ∃ d ∈ (dropTrailingZeros ds).head?, d ≠ 0 := by
  obtain ⟨zeros, hzeros⟩ := exists_dropTrailingZeros_append ds
  obtain ⟨d, hd, hne⟩ := h
  cases hdrop : dropTrailingZeros ds with
  | nil =>
    rw [hdrop, List.nil_append] at hzeros
    refine absurd ?_ hne
    exact List.eq_of_mem_replicate (hzeros ▸ List.mem_of_mem_head? hd)
  | cons e es =>
    rw [hdrop] at hzeros
    rw [← hzeros] at hd
    exact ⟨d, hd, hne⟩

theorem ofNat_count_ne_nil (n : Nat) : ofNat (count n) n ≠ [] := by
  rw [← List.length_pos_iff, length_ofNat]
  exact count_pos n

theorem leading_toChars_append (ds : List Digit) {rest : List Char}
    (h : ∀ c ∈ rest.head?, Digit.ofChar? c = none) : leading (toChars ds ++ rest) = (ds, rest) := by
  induction ds with
  | nil =>
    cases rest with
    | nil => rfl
    | cons c cs => simp [toChars, leading, h c rfl]
  | cons d ds ih =>
    change leading (d.toChar :: (toChars ds ++ rest)) = (d :: ds, rest)
    rw [leading, Digit.ofChar?_toChar, ih]

/-- What is taken off a text and what is left make the text. -/
theorem toChars_leading_append (cs : List Char) :
    toChars (leading cs).1 ++ (leading cs).2 = cs := by
  induction cs with
  | nil => rfl
  | cons c cs ih =>
    rw [leading]
    split
    · next d hd => exact congrArg₂ (· :: ·) (Digit.toChar_of_ofChar? hd) ih
    · rfl

theorem not_isBlank_of_mem_toChars {ds : List Digit} {c : Char} (h : c ∈ toChars ds) :
    Text.isBlank c = false := by
  obtain ⟨d, -, rfl⟩ := List.mem_map.mp h
  exact d.isBlank_toChar

end Digits

namespace Count

theorem digitValue?_toChar (d : Digit) : digitValue? 10 d.toChar = some d.val := by
  revert d
  decide

theorem not_isBlank_of_digitValue? {base d : Nat} {c : Char} (h : digitValue? base c = some d) :
    Text.isBlank c = false := by
  have codes : '0'.toNat = 48 ∧ '9'.toNat = 57 ∧ 'a'.toNat = 97 ∧ 'f'.toNat = 102 ∧
      'A'.toNat = 65 ∧ 'F'.toNat = 70 := by decide
  obtain ⟨hvalue, -⟩ := Option.filter_eq_some_iff.mp h
  have hcode : 48 ≤ c.toNat ∧ c.toNat ≤ 102 := by
    split at hvalue
    · omega
    · split at hvalue
      · omega
      · split at hvalue
        · omega
        · simp at hvalue
  simp [Text.isBlank]
  omega

/-- A plus sign is no blank either. -/
theorem not_isBlank_of_mem_plus {plus : List Char} (hplus : plus = [] ∨ plus = ['+']) :
    ∀ c ∈ plus, Text.isBlank c = false := by
  obtain rfl | rfl := hplus <;> simp [Text.isBlank]

theorem le_foldl_values {base : Nat} (hbase : 0 < base) (values : List Nat) (n : Nat) :
    n ≤ values.foldl (fun n d => n * base + d) n := by
  induction values generalizing n with
  | nil => exact Nat.le_refl n
  | cons d values ih =>
    have grown : n ≤ n * base + d :=
      Nat.le_trans (Nat.le_mul_of_pos_right n hbase) (Nat.le_add_right _ _)
    exact Nat.le_trans grown (ih _)

/-- Digits that write a number within the limit are read as this number. -/
theorem readDigits_of_forall₂ {base limit soFar : Nat} (hbase : 0 < base) {cs : List Char}
    {values : List Nat} (hcs : List.Forall₂ (fun c d => digitValue? base c = some d) cs values)
    (h : values.foldl (fun n d => n * base + d) soFar ≤ limit) :
    readDigits base limit soFar cs = .ok (values.foldl (fun n d => n * base + d) soFar) := by
  induction hcs generalizing soFar with
  | nil => rfl
  | @cons c d cs values hc _ ih =>
    have fits := Nat.le_trans (le_foldl_values hbase values (soFar * base + d)) h
    simp only [readDigits, hc, if_pos fits]
    exact ih h

theorem exists_digit_of_digitValue? {c : Char} {n : Nat} (h : digitValue? 10 c = some n) :
    ∃ d : Digit, c = d.toChar ∧ d.val = n := by
  obtain ⟨hvalue, hn⟩ := Option.filter_eq_some_iff.mp h
  have hn : n < 10 := by simpa using hn
  have code : c.toNat = '0'.toNat + n := by
    have digits : '0'.toNat = 48 ∧ '9'.toNat = 57 := by decide
    have letters : 'a'.toNat = 97 ∧ 'A'.toNat = 65 := by decide
    split at hvalue
    · have := Option.some.inj hvalue
      omega
    · split at hvalue
      · have := Option.some.inj hvalue
        omega
      · split at hvalue
        · have := Option.some.inj hvalue
          omega
        · simp at hvalue
  exact ⟨⟨n, hn⟩, by rw [Digit.toChar, ← code, Char.ofNat_toNat], rfl⟩

theorem exists_values_of_readDigits {base limit soFar n : Nat} {cs : List Char}
    (h : readDigits base limit soFar cs = .ok n) :
    ∃ values, List.Forall₂ (fun c d => digitValue? base c = some d) cs values ∧
      values.foldl (fun n d => n * base + d) soFar = n := by
  induction cs generalizing soFar with
  | nil => exact ⟨[], .nil, Except.ok.inj h⟩
  | cons c cs ih =>
    rw [readDigits] at h
    split at h
    · simp at h
    · next d hd =>
      split at h
      · obtain ⟨values, hvalues, hn⟩ := ih h
        exact ⟨d :: values, .cons hd hvalues, hn⟩
      · simp at h

/-- Digits in a base write a number, as in positional notation. -/
def Writes (base : Nat) (cs : List Char) (n : Nat) : Prop :=
  ∃ values, List.Forall₂ (fun c d => digitValue? base c = some d) cs values ∧
    Nat.ofDigits base values.reverse = n

/-- Digits are read as the number that they write, if it is within the limit. -/
theorem readDigits_eq_ok_iff {base limit n : Nat} (hbase : 0 < base) {cs : List Char} :
    readDigits base limit 0 cs = .ok n ↔ Writes base cs n ∧ n ≤ limit := by
  constructor
  · intro h
    obtain ⟨values, hcs, hn⟩ := exists_values_of_readDigits h
    exact ⟨⟨values, hcs, by rw [← Digits.foldl_eq_ofDigits, hn]⟩, readDigits_le (Nat.zero_le _) h⟩
  · rintro ⟨⟨values, hcs, rfl⟩, hle⟩
    rw [← Digits.foldl_eq_ofDigits] at hle ⊢
    exact readDigits_of_forall₂ hbase hcs hle

/-- **The texts that are read as a number:** digits, at least one, that write a number within the
limit, with or without a plus sign before them. -/
theorem read_eq_ok_iff {base limit n : Nat} (hbase : 0 < base) {cs : List Char} :
    read base limit cs = .ok n ↔ ∃ plus digits, (plus = [] ∨ plus = ['+']) ∧ digits ≠ [] ∧
      cs = plus ++ digits ∧ Writes base digits n ∧ n ≤ limit := by
  constructor
  · intro h
    unfold read at h
    split at h
    · simp at h
    · simp at h
    · next cs hcs =>
      obtain ⟨hwrites, hle⟩ := (readDigits_eq_ok_iff hbase).mp h
      exact ⟨['+'], cs, .inr rfl, by simpa using hcs, rfl, hwrites, hle⟩
    · next hcs _ _ =>
      obtain ⟨hwrites, hle⟩ := (readDigits_eq_ok_iff hbase).mp h
      exact ⟨[], cs, .inl rfl, by simpa using hcs, rfl, hwrites, hle⟩
  · rintro ⟨plus, digits, hplus, hne, rfl, hwrites, hle⟩
    have hread : readDigits base limit 0 digits = .ok n :=
      (readDigits_eq_ok_iff hbase).mpr ⟨hwrites, hle⟩
    obtain ⟨c, cs, rfl⟩ := List.exists_cons_of_ne_nil hne
    -- A plus sign is no digit, so digits are not taken for a sign.
    have hc : c ≠ '+' := by
      rintro rfl
      obtain ⟨_, hvalues, -⟩ := hwrites
      cases hvalues with
      | cons hplus _ => simp [digitValue?] at hplus
    obtain rfl | rfl := hplus
    · rw [List.nil_append, read]
      · exact hread
      · simp
      · simpa using fun h => absurd h hc
      · simpa using fun h => absurd h hc
    · exact hread

/-- In base ten they are the digits that are used elsewhere. -/
theorem writes_ten_iff {cs : List Char} {n : Nat} :
    Writes 10 cs n ↔ ∃ ds, cs = Digits.toChars ds ∧ Digits.value ds = n := by
  constructor
  · rintro ⟨values, hcs, rfl⟩
    obtain ⟨ds, rfl, rfl⟩ :
        ∃ ds : List Digit, cs = Digits.toChars ds ∧ values = ds.map Fin.val := by
      induction hcs with
      | nil => exact ⟨[], rfl, rfl⟩
      | cons hc _ ih =>
        obtain ⟨d, rfl, rfl⟩ := exists_digit_of_digitValue? hc
        obtain ⟨ds, rfl, rfl⟩ := ih
        exact ⟨d :: ds, rfl, rfl⟩
    exact ⟨ds, rfl, Digits.value_eq_ofDigits ds⟩
  · rintro ⟨ds, rfl, rfl⟩
    refine ⟨ds.map Fin.val, ?_, (Digits.value_eq_ofDigits ds).symm⟩
    rw [Digits.toChars, List.forall₂_map_left_iff, List.forall₂_map_right_iff, List.forall₂_same]
    exact fun d _ => digitValue?_toChar d

/-- The texts that are read as a decimal number. -/
theorem ofText?_eq_some_iff {limit n : Nat} {cs : List Char} :
    ofText? limit cs = some n ↔ ∃ plus ds, (plus = [] ∨ plus = ['+']) ∧ ds ≠ [] ∧
      cs = plus ++ Digits.toChars ds ∧ Digits.value ds = n ∧ n ≤ limit := by
  rw [ofText?, toOption_eq_some_iff, read_eq_ok_iff (by decide)]
  constructor
  · rintro ⟨plus, digits, hplus, hne, rfl, hwrites, hle⟩
    obtain ⟨ds, rfl, hvalue⟩ := writes_ten_iff.mp hwrites
    exact ⟨plus, ds, hplus, by simpa [Digits.toChars] using hne, rfl, hvalue, hle⟩
  · rintro ⟨plus, ds, hplus, hne, rfl, hvalue, hle⟩
    exact ⟨plus, Digits.toChars ds, hplus, by simpa [Digits.toChars] using hne, rfl,
      writes_ten_iff.mpr ⟨ds, rfl, hvalue⟩, hle⟩

/-- Blanks around a number are not looked at. -/
theorem ofText?_trim_eq_some_iff {limit n : Nat} {cs : List Char} :
    ofText? limit (Text.trim cs) = some n ↔ ∃ plus ds, (plus = [] ∨ plus = ['+']) ∧ ds ≠ [] ∧
      Text.Padded (plus ++ Digits.toChars ds) cs ∧ Digits.value ds = n ∧ n ≤ limit := by
  rw [ofText?_eq_some_iff]
  refine exists_congr fun plus => exists_congr fun ds => and_congr_right fun hplus => ?_
  have dense : ∀ c ∈ plus ++ Digits.toChars ds, Text.isBlank c = false := by
    rw [List.forall_mem_append]
    exact ⟨not_isBlank_of_mem_plus hplus, fun c hc => Digits.not_isBlank_of_mem_toChars hc⟩
  rw [Text.trim_eq_iff_padded dense]

end Count

end Quadrille
