import Quadrille.Address
import Quadrille.Proofs.Number.Digits
import Quadrille.Proofs.Text.Runs

/-!
# Cell names read back

The name that a cell address is written as is read as that address: its letters end where its digits
begin, the letters are those of exactly one column, and the digits write the row counted from one.
The only addresses that are lost are those that do not fit a 64-bit word.

The texts that are read as an address are the spellings of its name (`Address.Spelling`): letters in
either case, and any number of zeros in front of the digits. Letters and digits write their numbers
in two notations that are not the same but for the base. Digits have a zero, so there are many runs
for each number, and one of them is the shortest; letters have none, so there is one run for each
number (`Column.letters_number`), but for the letter case.

## Main definitions

* `Address.Spelling` — letters and digits that make a name of an address
* `Address.Respells` — two texts that differ in letter case and leading zeros only

## Main results

* `Column.number_letters`, `Column.letters_number` — letters and numbers of columns
* `Address.ofName?_name` — the name of an address is read as the address
* `Address.ofName?_eq_of_respells` — letter case and leading zeros do not matter
* `Address.reads_spellings` — the texts that are read as an address, and as which
-/

namespace Quadrille

namespace Column

/-- The upper-case letters are letters, and they are numbered from one. -/
theorem letter_spec (k : Fin 26) :
    isLetter (Char.ofNat ('A'.toNat + k.val)) = true ∧
      letterNumber (Char.ofNat ('A'.toNat + k.val)) = k.val + 1 := by
  revert k
  decide

theorem isLetter_of_mem_letters {n : Nat} {c : Char} (h : c ∈ letters n) : isLetter c = true := by
  induction n using letters.induct with
  | case1 => simp [letters] at h
  | case2 n hn ih =>
    rw [letters, if_neg hn, List.mem_append, List.mem_singleton] at h
    obtain h | rfl := h
    · exact ih h
    · exact (letter_spec ⟨(n - 1) % 26, Nat.mod_lt _ (by decide)⟩).1

theorem letters_ne_nil {n : Nat} (h : n ≠ 0) : letters n ≠ [] := by
  rw [letters, if_neg h]
  simp

/-- **The letters of a column** write its number. -/
@[simp]
theorem number_letters (n : Nat) : number (letters n) = n := by
  induction n using letters.induct with
  | case1 => simp [letters, number]
  | case2 n hn ih =>
    have last := (letter_spec ⟨(n - 1) % 26, Nat.mod_lt _ (by decide)⟩).2
    rw [letters, if_neg hn, number, List.foldl_append, ← number, ih, List.foldl_cons,
      List.foldl_nil, last]
    simp only
    omega

/-- A number never shrinks when letters are read onto it. -/
theorem le_foldl_letters (cs : List Char) (n : Nat) :
    n ≤ cs.foldl (fun n c => n * 26 + letterNumber c) n := by
  induction cs generalizing n with
  | nil => exact le_rfl
  | cons c cs ih =>
    calc n ≤ n * 26 + letterNumber c := by omega
      _ ≤ cs.foldl (fun n c => n * 26 + letterNumber c) (n * 26 + letterNumber c) := ih _

/-- **Letters are read one after the other,** and it is enough to look at the number that all of
them write: a number that outgrows a word on the way does not come back into it. -/
theorem readLetters?_eq (cs : List Char) (n : Nat) (hn : n ≤ Count.largest) :
    readLetters? n cs =
      if cs.foldl (fun n c => n * 26 + letterNumber c) n ≤ Count.largest then
        some (cs.foldl (fun n c => n * 26 + letterNumber c) n)
      else none := by
  induction cs generalizing n with
  | nil => rw [readLetters?, List.foldl_nil, if_pos hn]
  | cons c cs ih =>
    rw [readLetters?, List.foldl_cons]
    split
    · next hle => exact ih _ hle
    · next hgt =>
      have hwhole := le_foldl_letters cs (n * 26 + letterNumber c)
      rw [if_neg (by omega)]

/-- The column of a name is the number of the letters at its front, unless there are none or their
number is too large. -/
theorem ofName?_eq (name : List Char) : ofName? name =
    if (name.takeWhile isLetter).isEmpty ∨ Count.largest < number (name.takeWhile isLetter) then
      none
    else some (number (name.takeWhile isLetter)) := by
  rw [ofName?, readLetters?_eq _ _ (Nat.zero_le _), ← number]
  split <;> split <;> simp_all

/-- The letters of a column are read as the column, if its number fits a 64-bit word. -/
theorem ofName?_letters {n : Nat} (hn : n ≠ 0) (hmax : n ≤ Count.largest) :
    ofName? (letters n) = some n := by
  have run : (letters n).takeWhile isLetter = letters n :=
    List.takeWhile_eq_self_iff.mpr fun c hc => isLetter_of_mem_letters hc
  rw [ofName?_eq, run, number_letters, if_neg]
  simp only [List.isEmpty_iff, letters_ne_nil hn, false_or]
  omega

/-- The column of a name is read off the letters at its front. -/
theorem ofName?_append {run rest : List Char} (hrun : ∀ c ∈ run, isLetter c = true)
    (hrest : ∀ c ∈ rest.head?, isLetter c = false) : ofName? (run ++ rest) = ofName? run := by
  have hfront : (run ++ rest).takeWhile isLetter = run.takeWhile isLetter := by
    rw [List.takeWhile_append_of_pos hrun, List.takeWhile_eq_self_iff.mpr hrun]
    cases rest with
    | nil => simp
    | cons c cs => simp [hrest c rfl]
  rw [ofName?_eq, hfront, ← ofName?_eq]

/-- Letters are numbered in either case. -/
theorem number_congr {run run' : List Char} (h : run.map Char.toUpper = run'.map Char.toUpper) :
    number run = number run' := by
  have hupper : ∀ run : List Char, number run =
      (run.map Char.toUpper).foldl (fun n c => n * 26 + (c.toNat - 'A'.toNat + 1)) 0 := by
    intro run
    rw [List.foldl_map]
    rfl
  rw [hupper, hupper, h]

theorem ofName?_congr {run run' : List Char} (hrun : ∀ c ∈ run, isLetter c = true)
    (hrun' : ∀ c ∈ run', isLetter c = true)
    (h : run.map Char.toUpper = run'.map Char.toUpper) : ofName? run = ofName? run' := by
  have hempty : run.isEmpty = run'.isEmpty := by
    simpa using congrArg List.isEmpty h
  rw [ofName?_eq, ofName?_eq, List.takeWhile_eq_self_iff.mpr hrun,
    List.takeWhile_eq_self_iff.mpr hrun', hempty, number_congr h]

theorem exists_eq_of_isLetter {c : Char} (h : isLetter c = true) :
    ∃ k : Fin 26, c = Char.ofNat ('A'.toNat + k.val) ∨ c = Char.ofNat ('a'.toNat + k.val) := by
  have bounds : 'A'.toNat = 65 ∧ 'a'.toNat = 97 := by decide
  obtain upper | lower : c.isUpper = true ∨ c.isLower = true := Bool.or_eq_true_iff.mp h
  · have hc : 65 ≤ c.toNat ∧ c.toNat ≤ 90 := of_decide_eq_true upper
    refine ⟨⟨c.toNat - 65, by omega⟩, .inl ?_⟩
    rw [bounds.1, Nat.add_sub_cancel' hc.1, Char.ofNat_toNat]
  · have hc : 97 ≤ c.toNat ∧ c.toNat ≤ 122 :=
      (Bool.and_eq_true_iff.mp lower).imp of_decide_eq_true of_decide_eq_true
    refine ⟨⟨c.toNat - 97, by omega⟩, .inr ?_⟩
    rw [bounds.2, Nat.add_sub_cancel' hc.1, Char.ofNat_toNat]

/-- A letter is numbered from one to twenty-six, and its upper case is the letter of the number. -/
theorem letterNumber_spec {c : Char} (h : isLetter c = true) :
    1 ≤ letterNumber c ∧ letterNumber c ≤ 26 ∧
      c.toUpper = Char.ofNat ('A'.toNat + (letterNumber c - 1)) := by
  obtain ⟨k, rfl | rfl⟩ := exists_eq_of_isLetter h
  all_goals revert k; decide

theorem number_append_singleton (run : List Char) (c : Char) :
    number (run ++ [c]) = number run * 26 + letterNumber c := by
  simp [number]

/-- The number that letters write is the one that they stand for in positional notation, with digits
from one to twenty-six. -/
theorem number_eq_ofDigits (run : List Char) :
    number run = Nat.ofDigits 26 (run.map letterNumber).reverse := by
  rw [Nat.ofDigits_eq_foldr, List.foldr_reverse, List.foldl_map, number]
  congr 1
  funext n c
  simp [Nat.add_comm, Nat.mul_comm]

/-- **The number that letters write** has these letters, in upper case. -/
theorem letters_number {run : List Char} (h : ∀ c ∈ run, isLetter c = true) :
    letters (number run) = run.map Char.toUpper := by
  induction run using List.reverseRecOn with
  | nil => simp [number, letters]
  | append_singleton run c ih =>
    obtain ⟨hrun, hc⟩ := List.forall_mem_append.mp h
    obtain ⟨hpos, hle, hupper⟩ := letterNumber_spec (hc c List.mem_cons_self)
    have front : (number run * 26 + letterNumber c - 1) / 26 = number run := by omega
    have last : (number run * 26 + letterNumber c - 1) % 26 = letterNumber c - 1 := by omega
    rw [number_append_singleton, letters, if_neg (by omega), front, last, ih hrun, ← hupper,
      List.map_append, List.map_singleton]

theorem number_pos {run : List Char} (hne : run ≠ []) : 0 < number run := by
  obtain ⟨front, c, rfl⟩ := (List.eq_nil_or_concat' run).resolve_left hne
  rw [number_append_singleton, letterNumber]
  omega

/-- A column is read off a text if there are letters at its front and their number fits a 64-bit
word. -/
theorem ofName?_eq_some_iff {name : List Char} {n : Nat} :
    ofName? name = some n ↔ name.takeWhile isLetter ≠ [] ∧
      number (name.takeWhile isLetter) ≤ Count.largest ∧ number (name.takeWhile isLetter) = n := by
  simp only [ofName?_eq, List.isEmpty_iff]
  split
  · next h => exact iff_of_false (by simp) fun ⟨hne, hle, _⟩ => h.elim hne (Nat.not_lt.mpr hle)
  · next h =>
    rw [not_or, Nat.not_lt] at h
    simp [h]

end Column

theorem Digit.isLetter_toChar (d : Digit) : Column.isLetter d.toChar = false := by
  revert d
  decide

theorem Digit.isAlphanum_toChar (d : Digit) : d.toChar.isAlphanum = true := by
  revert d
  decide

namespace Address

theorem isAlphanum_of_mem_nameChars {a : Address} {c : Char} (h : c ∈ a.nameChars) :
    c.isAlphanum = true := by
  obtain h | h := List.mem_append.mp h
  · have letter : c.isAlpha = true := Column.isLetter_of_mem_letters h
    simp [Char.isAlphanum, letter]
  · obtain ⟨d, -, rfl⟩ := List.mem_map.mp h
    exact d.isAlphanum_toChar

/-- Letters and then digits are read as the column of the letters and the number of the digits. -/
theorem ofChars?_append {run : List Char} (hrun : ∀ c ∈ run, Column.isLetter c = true)
    {digits : List Digit} (hdigits : digits ≠ []) :
    ofChars? (run ++ Digits.toChars digits) = (Column.ofName? run).bind fun column =>
      if 1 ≤ Digits.value digits ∧ Digits.value digits ≤ Count.largest then
        some ⟨Digits.value digits - 1, column - 1⟩
      else none := by
  have hrest : ∀ c ∈ (Digits.toChars digits).head?, Column.isLetter c = false := by
    intro c hc
    obtain ⟨d, -, rfl⟩ := List.mem_map.mp (List.mem_of_mem_head? hc)
    exact d.isLetter_toChar
  have row : Digits.leading ((run ++ Digits.toChars digits).dropWhile Column.isLetter) =
      (digits, []) := by
    rw [List.dropWhile_append_of_pos hrun, dropWhile_eq_self hrest,
      ← List.append_nil (Digits.toChars digits)]
    exact Digits.leading_toChars_append digits (by simp)
  rw [ofChars?, row, Column.ofName?_append hrun hrest]
  obtain ⟨d, ds, rfl⟩ := List.exists_cons_of_ne_nil hdigits
  cases Column.ofName? run <;> rfl

/-- **The name of an address** is read as the address. -/
theorem ofName?_name {a : Address} (hrow : a.row < Count.largest)
    (hcolumn : a.column < Count.largest) : ofName? a.name = some a := by
  rw [ofName?, name, String.toList_ofList, nameChars,
    ofChars?_append (fun c hc => Column.isLetter_of_mem_letters hc)
      (Digits.ofNat_count_ne_nil _),
    Column.ofName?_letters (Nat.succ_ne_zero _) hcolumn, Option.bind_some,
    Digits.value_ofNat_count, if_pos ⟨Nat.succ_pos _, hrow⟩]
  rfl

/-- Two names write the same letters, in either case, and the same digits, behind any number of
zeros. -/
def Respells (name name' : String) : Prop :=
  ∃ run run' digits zeros zeros', (∀ c ∈ run, Column.isLetter c = true) ∧
    (∀ c ∈ run', Column.isLetter c = true) ∧ digits ≠ [] ∧
    run.map Char.toUpper = run'.map Char.toUpper ∧
    name.toList = run ++ (List.replicate zeros '0' ++ Digits.toChars digits) ∧
    name'.toList = run' ++ (List.replicate zeros' '0' ++ Digits.toChars digits)

/-- Names that write the same are read as the same address, if they are read as any. -/
theorem ofName?_eq_of_respells {name name' : String} (h : Respells name name') :
    ofName? name = ofName? name' := by
  obtain ⟨run, run', digits, zeros, zeros', hrun, hrun', hdigits, hupper, hname, hname'⟩ := h
  have hchars : ∀ zeros, List.replicate zeros '0' ++ Digits.toChars digits =
      Digits.toChars (List.replicate zeros 0 ++ digits) := by
    intro zeros
    simp [Digits.toChars, Digit.toChar]
  have hne : ∀ zeros, List.replicate zeros 0 ++ digits ≠ [] := fun zeros hnil =>
    hdigits (List.append_eq_nil_iff.mp hnil).2
  rw [ofName?, ofName?, hname, hname', hchars, hchars, ofChars?_append hrun (hne zeros),
    ofChars?_append hrun' (hne zeros'), Column.ofName?_congr hrun hrun' hupper,
    Digits.value_replicate_append, Digits.value_replicate_append]

/-- Letters and digits, at least one of each, make a name of an address: the letters write its
column in bijective base twenty-six and the digits its row in base ten, both counted from one, and
both numbers fit a 64-bit word. -/
structure Spelling (name : String) (a : Address) (run : List Char) (digits : List Digit) :
    Prop where
  chars : name.toList = run ++ Digits.toChars digits
  letters : run ≠ [] ∧ ∀ c ∈ run, Column.isLetter c = true
  digits_ne_nil : digits ≠ []
  column : a.column + 1 = Nat.ofDigits 26 (run.map Column.letterNumber).reverse
  column_le : a.column + 1 ≤ Count.largest
  row : a.row + 1 = Nat.ofDigits 10 (digits.map Fin.val).reverse
  row_le : a.row + 1 ≤ Count.largest

variable {s : String} {a : Address}

theorem Spelling.ofName?_eq {run : List Char} {digits : List Digit}
    (h : Spelling s a run digits) : ofName? s = some a := by
  have hrun : run.takeWhile Column.isLetter = run :=
    List.takeWhile_eq_self_iff.mpr h.letters.2
  have hcolumn : Column.ofName? run = some (a.column + 1) := by
    rw [Column.ofName?_eq_some_iff, hrun, Column.number_eq_ofDigits, ← h.column]
    exact ⟨h.letters.1, h.column_le, rfl⟩
  have hrow : Digits.value digits = a.row + 1 := by
    rw [Digits.value_eq_ofDigits, h.row]
  rw [ofName?, h.chars, ofChars?_append h.letters.2 h.digits_ne_nil, hcolumn, Option.bind_some,
    hrow, if_pos ⟨Nat.succ_pos _, h.row_le⟩]
  rfl

theorem exists_spelling_of_ofName? (h : ofName? s = some a) :
    ∃ run digits, Spelling s a run digits := by
  rw [ofName?, ofChars?] at h
  have hchars := Digits.toChars_leading_append (s.toList.dropWhile Column.isLetter)
  split at h
  · simp at h
  · simp at h
  · next digits hnil hleading =>
    rw [hleading, List.append_nil] at hchars
    dsimp only at hchars
    split at h
    · simp at h
    · next column hcolumn =>
      obtain ⟨hne, hle, rfl⟩ := Column.ofName?_eq_some_iff.mp hcolumn
      dsimp only at h
      split at h
      · next hrow =>
        obtain rfl := Option.some.inj h
        have hpos := Column.number_pos hne
        refine ⟨s.toList.takeWhile Column.isLetter, digits, ?_, ⟨hne, ?_⟩, ?_, ?_, ?_, ?_, ?_⟩
        · rw [hchars, List.takeWhile_append_dropWhile]
        · exact fun c hc => List.mem_takeWhile_imp hc
        · rintro rfl
          exact hnil rfl
        · rw [← Column.number_eq_ofDigits]
          exact Nat.sub_add_cancel hpos
        · exact (Nat.sub_add_cancel hpos).trans_le hle
        · rw [← Digits.value_eq_ofDigits]
          exact Nat.sub_add_cancel hrow.1
        · exact (Nat.sub_add_cancel hrow.1).trans_le hrow.2
      · simp at h

/-- The name of an address is its spelling in upper case and without leading zeros. -/
theorem Spelling.toList_name {run : List Char} {digits : List Digit}
    (h : Spelling s a run digits) :
    a.name.toList = run.map Char.toUpper ++ Digits.toChars (digits.dropWhile (· == 0)) := by
  have hcolumn : a.column + 1 = Column.number run :=
    h.column.trans (Column.number_eq_ofDigits _).symm
  have hrow : a.row + 1 = Digits.value digits :=
    h.row.trans (Digits.value_eq_ofDigits _).symm
  rw [Address.name, String.toList_ofList, nameChars, hcolumn, Column.letters_number h.letters.2,
    hrow, Digits.ofNat_count_value (by omega)]

/-- **The texts that are read as an address** are the spellings of its name. The name itself is one
of them, in upper case and without leading zeros, as long as the address is below the largest 64-bit
word in both directions. So different addresses have different names, and the name of what a text is
read as is read as the same again. -/
theorem reads_spellings :
    (∀ s a, ofName? s = some a ↔ ∃ run digits, Spelling s a run digits) ∧
    (∀ s a run digits, Spelling s a run digits →
      a.name.toList = run.map Char.toUpper ++ Digits.toChars (digits.dropWhile (· == 0))) ∧
    (∀ a : Address, a.row < Count.largest → a.column < Count.largest →
      ofName? a.name = some a) ∧
    (∀ a b : Address, a.row < Count.largest → a.column < Count.largest → b.row < Count.largest →
      b.column < Count.largest → a.name = b.name → a = b) ∧
    ∀ s, ((ofName? s).map name).bind ofName? = ofName? s := by
  refine ⟨fun s a => ⟨exists_spelling_of_ofName?, ?_⟩, fun s a run digits h => h.toList_name,
    fun a hrow hcolumn => ofName?_name hrow hcolumn, fun a b ha ha' hb hb' hab => ?_, fun s => ?_⟩
  · rintro ⟨run, digits, h⟩
    exact h.ofName?_eq
  · have read := ofName?_name ha ha'
    rw [hab, ofName?_name hb hb'] at read
    exact (Option.some.inj read).symm
  · cases hs : ofName? s with
    | none => rfl
    | some a =>
      obtain ⟨run, digits, h⟩ := exists_spelling_of_ofName? hs
      exact ofName?_name (Nat.lt_of_succ_le h.row_le) (Nat.lt_of_succ_le h.column_le)

/-- A name in mixed case, with zeros in front of its digits. -/
example : (ofName? "aZ007").map name = some "AZ7" := by cbv

end Address

end Quadrille
