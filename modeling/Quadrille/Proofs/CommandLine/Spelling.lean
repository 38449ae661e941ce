import Quadrille.CommandLine.SettingsFile
import Quadrille.Proofs.Number.Digits

/-!
# The spelling of keys and integers

A line of a settings file has a key and an integer in it, and there are several ways to write each
of them. They are described here as relations between what is written and what is meant, with one
case for each form: bare keys and keys between quotation marks of either kind, integers with a sign
or without and in four bases.

Where the reader takes what has been written at the front of a text, it is not told where that ends.
It takes characters as long as they fit and never goes back. So each relation comes with what the
spelled characters are, and what they are not.

## Main definitions

* `Spaces`, `LineEnd` — what may stand between the parts of a line, and at its end
* `SpellsKey`, `SpellsInteger` — the spellings of keys and integers

## Main results

* `isLineEnd_iff`
* `exists_of_readKey?`, `readKey?_append` — keys are read from their spellings
* `readInteger?_eq_some_iff` — so are integers
-/

namespace Quadrille.SettingsFile

/-! ### Between the parts of a line -/

/-- Spaces and tabs. -/
def Spaces (cs : List Char) : Prop :=
  ∀ c ∈ cs, c = ' ' ∨ c = '\t'

/-- The end of a line: spaces, and perhaps a comment. -/
def LineEnd (cs : List Char) : Prop :=
  ∃ spaces comment, Spaces spaces ∧ cs = spaces ++ comment ∧
    (comment = [] ∨ ∃ text, comment = '#' :: text ∧ ∀ c ∈ text, isCommentChar c = true)

/-- Behind spaces comes what follows them. -/
theorem Spaces.mem_head?_append {spaces rest : List Char} (h : Spaces spaces) :
    ∀ c ∈ (spaces ++ rest).head?, c = ' ' ∨ c = '\t' ∨ c ∈ rest.head? := by
  intro c hc
  cases spaces with
  | nil => exact .inr (.inr hc)
  | cons d spaces =>
    obtain rfl : d = c := by simpa using hc
    exact (h d List.mem_cons_self).imp_right .inl

theorem skipSpace_append {spaces rest : List Char} (hspaces : Spaces spaces)
    (hrest : ∀ c ∈ rest.head?, c ≠ ' ' ∧ c ≠ '\t') : skipSpace (spaces ++ rest) = rest := by
  rw [skipSpace]
  exact dropWhile_append_eq (fun c hc => by simpa using hspaces c hc)
    fun c hc => by simpa using hrest c hc

theorem exists_spaces_append (cs : List Char) :
    ∃ spaces, Spaces spaces ∧ cs = spaces ++ skipSpace cs := by
  refine ⟨cs.takeWhile fun c => c == ' ' || c == '\t', fun c hc => ?_, ?_⟩
  · simpa using List.mem_takeWhile_imp hc
  · rw [skipSpace, List.takeWhile_append_dropWhile]

theorem isLineEnd_iff {cs : List Char} : isLineEnd cs = true ↔ LineEnd cs := by
  constructor
  · intro h
    obtain ⟨spaces, hspaces, hcs⟩ := exists_spaces_append cs
    refine ⟨spaces, skipSpace cs, hspaces, hcs, ?_⟩
    rw [isLineEnd] at h
    split at h
    · next heq => exact .inl heq
    · next text heq => exact .inr ⟨text, heq, by simpa using h⟩
    · simp at h
  · rintro ⟨spaces, comment, hspaces, rfl, rfl | ⟨text, rfl, htext⟩⟩
    · rw [isLineEnd, skipSpace_append hspaces (by simp)]
    · rw [isLineEnd, skipSpace_append hspaces (by simp)]
      simpa using htext

/-- The end of a line begins with a space or like a comment, if there is anything to it. -/
theorem LineEnd.head {cs : List Char} (h : LineEnd cs) :
    ∀ c ∈ cs.head?, c = ' ' ∨ c = '\t' ∨ c = '#' := by
  obtain ⟨spaces, comment, hspaces, rfl, hcomment⟩ := h
  intro c hc
  refine (hspaces.mem_head?_append c hc).imp_right (Or.imp_right fun hc => ?_)
  obtain rfl | ⟨text, rfl, -⟩ := hcomment
  · simp at hc
  · simpa using hc.symm

/-! ### Keys -/

/-- The spelling of a key between double quotation marks. Characters stand for themselves or are
written by their number. -/
inductive SpellsQuoted : List Char → List Char → Prop where
  | nil : SpellsQuoted [] []
  | char {c : Char} {cs key : List Char} (hquote : c ≠ '"') (hescape : c ≠ '\\')
      (rest : SpellsQuoted cs key) : SpellsQuoted (c :: cs) (c :: key)
  | code {mark : Char} {digits cs key : List Char} {code : Nat}
      (hmark : mark = 'u' ∧ digits.length = 4 ∨ mark = 'U' ∧ digits.length = 8)
      (hcode : Count.Writes 16 digits code) (hvalid : code.isValidChar)
      (rest : SpellsQuoted cs key) :
      SpellsQuoted ('\\' :: mark :: (digits ++ cs)) (Char.ofNat code :: key)

/-- The spelling of a key: bare, or between quotation marks of either kind. -/
inductive SpellsKey : List Char → List Char → Prop where
  | bare {key : List Char} (h : ∀ c ∈ key, isBareKeyChar c = true) : SpellsKey key key
  | quoted {cs key : List Char} (h : SpellsQuoted cs key) : SpellsKey ('"' :: (cs ++ ['"'])) key
  | literal {key : List Char} (h : '\'' ∉ key) : SpellsKey ('\'' :: (key ++ ['\''])) key

/-- Eight hexadecimal digits do not outgrow the limit. -/
theorem writes_le_largestInteger {digits : List Char} {n : Nat} (hdigits : digits.length ≤ 8)
    (h : Count.Writes 16 digits n) : n ≤ largestInteger := by
  obtain ⟨values, hvalues, rfl⟩ := h
  have hlt : ∀ d ∈ values.reverse, d < 16 := by
    intro d hd
    obtain ⟨c, -, hc⟩ := exists_of_forall₂_right hvalues d (List.mem_reverse.mp hd)
    simpa using (Option.filter_eq_some_iff.mp hc).2
  have hsmall := Nat.ofDigits_lt_base_pow_length (by decide) hlt
  have hlength : values.reverse.length ≤ 8 := by
    rw [List.length_reverse, ← hvalues.length_eq]
    exact hdigits
  have hpow : 16 ^ values.reverse.length ≤ 16 ^ 8 := Nat.pow_le_pow_right (by decide) hlength
  have hlimit : 16 ^ 8 ≤ largestInteger := by decide
  omega

theorem readCode?_eq_some_iff {width : Nat} (hwidth : width ≤ 8) {cs rest : List Char}
    {c : Char} : readCode? width cs = some (c, rest) ↔
      ∃ digits code, digits.length = width ∧ cs = digits ++ rest ∧
        Count.Writes 16 digits code ∧ code.isValidChar ∧ Char.ofNat code = c := by
  have hbase : 0 < 16 := by decide
  constructor
  · intro h
    by_cases hshort : (cs.take width).length < width
    · rw [List.length_take] at hshort
      simp [readCode?] at h
      omega
    · have hlength : (cs.take width).length = width :=
        Nat.le_antisymm (List.length_take_le _ _) (Nat.not_lt.mp hshort)
      simp only [readCode?, if_neg hshort] at h
      obtain ⟨code, hcode, h⟩ := Option.bind_eq_some_iff.mp h
      obtain ⟨hwrites, -⟩ :=
        (Count.readDigits_eq_ok_iff hbase).mp (toOption_eq_some_iff.mp hcode)
      split at h
      · next hvalid =>
        obtain ⟨rfl, rfl⟩ := Prod.mk.inj (Option.some.inj h)
        exact ⟨cs.take width, code, hlength, (List.take_append_drop width cs).symm, hwrites,
          hvalid, rfl⟩
      · simp [failure] at h
  · rintro ⟨digits, code, rfl, rfl, hwrites, hvalid, rfl⟩
    have hcode : Count.readDigits 16 largestInteger 0 digits = .ok code :=
      (Count.readDigits_eq_ok_iff hbase).mpr ⟨hwrites, writes_le_largestInteger hwidth hwrites⟩
    simp [readCode?, hcode, hvalid, Except.toOption]

/-- A character that is written by its number may go before what has been spelled. -/
theorem exists_spelling_of_readCode? {mark c : Char} {width : Nat} {cs tail key rest : List Char}
    (hmark : mark = 'u' ∧ width = 4 ∨ mark = 'U' ∧ width = 8)
    (hc : readCode? width cs = some (c, tail))
    (h : ∃ spelled, SpellsQuoted spelled key ∧ tail = spelled ++ '"' :: rest) :
    ∃ spelled, SpellsQuoted spelled (c :: key) ∧ '\\' :: mark :: cs = spelled ++ '"' :: rest := by
  obtain ⟨spelled, hspelled, rfl⟩ := h
  obtain ⟨digits, code, hlength, rfl, hwrites, hvalid, rfl⟩ :=
    (readCode?_eq_some_iff (by omega)).mp hc
  exact ⟨'\\' :: mark :: (digits ++ spelled), .code (by rwa [hlength]) hwrites hvalid hspelled,
    by simp⟩

theorem exists_of_readQuotedKey? {fuel : Nat} {cs key rest : List Char}
    (h : readQuotedKey? fuel cs = some (key, rest)) :
    ∃ spelled, SpellsQuoted spelled key ∧ cs = spelled ++ '"' :: rest := by
  induction fuel, cs using readQuotedKey?.induct generalizing key with
  | case1 fuel tail =>
    rw [readQuotedKey?] at h
    obtain ⟨rfl, rfl⟩ := Prod.mk.inj (Option.some.inj h)
    exact ⟨[], .nil, rfl⟩
  | case2 fuel cs ih =>
    rw [readQuotedKey?] at h
    obtain ⟨⟨c, tail⟩, hc, h⟩ := Option.bind_eq_some_iff.mp h
    obtain ⟨⟨key, rest⟩, hkey, h⟩ := Option.bind_eq_some_iff.mp h
    obtain ⟨rfl, rfl⟩ := Prod.mk.inj (Option.some.inj h)
    exact exists_spelling_of_readCode? (.inl ⟨rfl, rfl⟩) hc (ih tail hkey)
  | case3 fuel cs ih =>
    rw [readQuotedKey?] at h
    obtain ⟨⟨c, tail⟩, hc, h⟩ := Option.bind_eq_some_iff.mp h
    obtain ⟨⟨key, rest⟩, hkey, h⟩ := Option.bind_eq_some_iff.mp h
    obtain ⟨rfl, rfl⟩ := Prod.mk.inj (Option.some.inj h)
    exact exists_spelling_of_readCode? (.inr ⟨rfl, rfl⟩) hc (ih tail hkey)
  | case4 fuel tail hu hU =>
    rw [readQuotedKey?.eq_4 _ _ hu hU] at h
    simp at h
  | case5 fuel c tail hquote hu hU hescape ih =>
    rw [readQuotedKey?.eq_5 _ _ _ hquote hu hU hescape] at h
    obtain ⟨⟨key, rest⟩, hkey, h⟩ := Option.bind_eq_some_iff.mp h
    obtain ⟨rfl, rfl⟩ := Prod.mk.inj (Option.some.inj h)
    obtain ⟨spelled, hspelled, rfl⟩ := ih hkey
    exact ⟨c :: spelled, .char hquote hescape hspelled, rfl⟩
  | case6 fuel cs hquote hescape hu hU hother =>
    rw [readQuotedKey?.eq_6 _ _ hquote hescape hu hU hother] at h
    simp at h

/-- Every character of a key takes one at least to spell, so fuel does not run out. -/
theorem readQuotedKey?_append {spelled key : List Char} (h : SpellsQuoted spelled key) {fuel : Nat}
    (hfuel : spelled.length ≤ fuel) (rest : List Char) :
    readQuotedKey? fuel (spelled ++ '"' :: rest) = some (key, rest) := by
  induction h generalizing fuel with
  | nil => rw [List.nil_append, readQuotedKey?]
  | @char c cs key hquote hescape _ ih =>
    obtain ⟨fuel, rfl⟩ := Nat.exists_eq_add_one_of_ne_zero (Nat.ne_zero_of_lt hfuel)
    rw [List.cons_append, readQuotedKey?.eq_5 _ _ _ hquote (fun _ h => absurd h hescape)
      (fun _ h => absurd h hescape) hescape, ih (Nat.le_of_succ_le_succ hfuel)]
    rfl
  | @code mark digits cs key code hmark hwrites hvalid _ ih =>
    have hcode : readCode? digits.length (digits ++ (cs ++ '"' :: rest)) =
        some (Char.ofNat code, cs ++ '"' :: rest) :=
      (readCode?_eq_some_iff (by omega)).mpr ⟨digits, code, rfl, rfl, hwrites, hvalid, rfl⟩
    obtain ⟨fuel, rfl⟩ := Nat.exists_eq_add_one_of_ne_zero (Nat.ne_zero_of_lt hfuel)
    have hrest : cs.length ≤ fuel := by
      simp only [List.length_cons, List.length_append] at hfuel
      omega
    have hspelled : '\\' :: mark :: (digits ++ cs) ++ '"' :: rest =
        '\\' :: mark :: (digits ++ (cs ++ '"' :: rest)) := by simp
    rw [hspelled]
    obtain ⟨rfl, hlength⟩ | ⟨rfl, hlength⟩ := hmark <;> rw [hlength] at hcode <;>
      simp [readQuotedKey?, hcode, ih hrest]

theorem exists_of_readKey? {cs key rest : List Char} (h : readKey? cs = some (key, rest)) :
    ∃ spelled, SpellsKey spelled key ∧ cs = spelled ++ rest := by
  unfold readKey? at h
  split at h
  · obtain ⟨spelled, hspelled, rfl⟩ := exists_of_readQuotedKey? h
    exact ⟨'"' :: (spelled ++ ['"']), .quoted hspelled, by simp⟩
  · next tail =>
    have hwhole := List.takeWhile_append_dropWhile (p := (· != '\'')) (l := tail)
    have hstop := List.head?_dropWhile_not (· != '\'') tail
    split at h
    · simp at h
    · next c after hafter =>
      rw [hafter] at hwhole hstop
      obtain rfl : c = '\'' := by simpa using hstop
      obtain ⟨rfl, rfl⟩ := Prod.mk.inj (Option.some.inj h)
      refine ⟨'\'' :: (tail.takeWhile (· != '\'') ++ ['\'']), .literal fun hmem => ?_, ?_⟩
      · simpa using List.mem_takeWhile_imp hmem
      · simpa using hwhole.symm
  · obtain ⟨rfl, rfl⟩ := Prod.mk.inj (Option.some.inj h)
    exact ⟨cs.takeWhile isBareKeyChar, .bare fun c hc => List.mem_takeWhile_imp hc,
      List.takeWhile_append_dropWhile.symm⟩

theorem readKey?_append {spelled key rest : List Char} (h : SpellsKey spelled key) (hne : key ≠ [])
    (hrest : ∀ c ∈ rest.head?, isBareKeyChar c = false) :
    readKey? (spelled ++ rest) = some (key, rest) := by
  cases h with
  | bare h =>
    obtain ⟨c, cs, rfl⟩ := List.exists_cons_of_ne_nil hne
    have hc := h c List.mem_cons_self
    unfold readKey?
    split
    · next heq =>
      obtain rfl : c = '"' := (List.cons.inj heq).1
      simp [isBareKeyChar] at hc
    · next heq =>
      obtain rfl : c = '\'' := (List.cons.inj heq).1
      simp [isBareKeyChar] at hc
    · rw [takeWhile_append_eq h hrest, dropWhile_append_eq h hrest]
  | quoted h =>
    rename_i cs
    have hread : readQuotedKey? (cs ++ '"' :: rest).length (cs ++ '"' :: rest) = some (key, rest) :=
      readQuotedKey?_append h (by simp) rest
    simpa [readKey?] using hread
  | literal h =>
    have hother : ∀ c ∈ key, (c != '\'') = true := fun c hc =>
      bne_iff_ne.mpr fun heq => h (heq ▸ hc)
    have hkey : (key ++ '\'' :: rest).takeWhile (· != '\'') = key :=
      takeWhile_append_eq hother (by simp)
    have hafter : (key ++ '\'' :: rest).dropWhile (· != '\'') = '\'' :: rest :=
      dropWhile_append_eq hother (by simp)
    simp [readKey?, hkey, hafter]

/-- A key begins neither with a space nor like a comment. -/
theorem SpellsKey.exists_cons {spelled key : List Char} (h : SpellsKey spelled key)
    (hne : key ≠ []) : ∃ c rest, spelled = c :: rest ∧ c ≠ ' ' ∧ c ≠ '\t' ∧ c ≠ '#' := by
  cases h with
  | bare h =>
    obtain ⟨c, rest, rfl⟩ := List.exists_cons_of_ne_nil hne
    have hc := h c List.mem_cons_self
    refine ⟨c, rest, rfl, ?_, ?_, ?_⟩ <;> rintro rfl <;> simp [isBareKeyChar] at hc
  | quoted h => exact ⟨'"', _, rfl, by decide⟩
  | literal h => exact ⟨'\'', _, rfl, by decide⟩

/-! ### Integers -/

/-- Digits in groups, with an underscore between any two of them. -/
def WritesGroups (base : Nat) (cs : List Char) (n : Nat) : Prop :=
  ∃ groups, groups ≠ [] ∧ [] ∉ groups ∧ cs = ['_'].intercalate groups ∧
    Count.Writes base groups.flatten n

/-- The spelling of an integer: decimal with a sign or without, and without zeros in front, or in
another base behind a mark. A minus sign can stand before zero only. -/
inductive SpellsInteger : List Char → Nat → Prop where
  | decimal {sign cs : List Char} {n : Nat}
      (hsign : sign = [] ∨ sign = ['+'] ∨ sign = ['-'] ∧ n = 0)
      (hzeros : cs = ['0'] ∨ cs.head? ≠ some '0') (hgroups : WritesGroups 10 cs n) :
      SpellsInteger (sign ++ cs) n
  | marked {mark : Char} {base : Nat} {cs : List Char} {n : Nat}
      (hmark : mark = 'x' ∧ base = 16 ∨ mark = 'o' ∧ base = 8 ∨ mark = 'b' ∧ base = 2)
      (hgroups : WritesGroups base cs n) : SpellsInteger ('0' :: mark :: cs) n

theorem digitValue?_underscore (base : Nat) : Count.digitValue? base '_' = none := by
  simp [Count.digitValue?]

theorem readInBase?_eq_some_iff {base n : Nat} (hbase : 0 < base) {cs : List Char} :
    readInBase? base cs = some n ↔ WritesGroups base cs n ∧ n ≤ largestInteger := by
  have hsplit : readInBase? base cs = some n ↔ [] ∉ cs.splitOn '_' ∧
      Count.Writes base (cs.splitOn '_').flatten n ∧ n ≤ largestInteger := by
    rw [← Count.readDigits_eq_ok_iff hbase, ← toOption_eq_some_iff, readInBase?, joinDigits?]
    by_cases h : [] ∈ cs.splitOn '_'
    · have hany : (cs.splitOn '_').any List.isEmpty = true :=
        List.any_eq_true.mpr ⟨[], h, rfl⟩
      simp [hany, h]
    · have hany : ¬(cs.splitOn '_').any List.isEmpty = true := fun hany => by
        obtain ⟨g, hg, hnil⟩ := List.any_eq_true.mp hany
        rw [List.isEmpty_iff.mp hnil] at hg
        exact h hg
      simp [hany, h]
  rw [hsplit]
  constructor
  · rintro ⟨hnil, hwrites, hle⟩
    exact ⟨⟨cs.splitOn '_', List.splitOn_ne_nil _ _, hnil, (List.intercalate_splitOn '_').symm,
      hwrites⟩, hle⟩
  · rintro ⟨⟨groups, hne, hnil, rfl, hwrites⟩, hle⟩
    have hunderscore : ∀ g ∈ groups, '_' ∉ g := by
      intro g hg hmem
      obtain ⟨values, hvalues, -⟩ := hwrites
      obtain ⟨d, -, hd⟩ := exists_of_forall₂_left hvalues '_' (List.mem_flatten_of_mem hg hmem)
      rw [digitValue?_underscore] at hd
      simp at hd
    rw [List.splitOn_intercalate '_' hunderscore hne]
    exact ⟨hnil, hwrites, hle⟩

theorem eq_or_mem_of_mem_intercalate {sep c : Char} {groups : List (List Char)}
    (h : c ∈ [sep].intercalate groups) : c = sep ∨ c ∈ groups.flatten := by
  induction groups with
  | nil => simp at h
  | cons g groups ih =>
    cases groups with
    | nil =>
      rw [List.intercalate_singleton] at h
      exact .inr (by simpa using h)
    | cons g' groups =>
      rw [List.intercalate_cons_cons, List.mem_append, List.mem_append, List.mem_singleton] at h
      rw [List.flatten_cons, List.mem_append]
      obtain (hg | hsep) | hrest := h
      · exact .inr (.inl hg)
      · exact .inl hsep
      · exact (ih hrest).imp_right .inr

/-- Digits in groups are digits and underscores. -/
theorem WritesGroups.forall_mem {base n : Nat} {cs : List Char} (h : WritesGroups base cs n) :
    ∀ c ∈ cs, c = '_' ∨ ∃ d, Count.digitValue? base c = some d := by
  obtain ⟨groups, -, -, rfl, values, hvalues, -⟩ := h
  intro c hc
  refine (eq_or_mem_of_mem_intercalate hc).imp_right fun hmem => ?_
  obtain ⟨d, -, hd⟩ := exists_of_forall₂_left hvalues c hmem
  exact ⟨d, hd⟩

/-- They begin with a digit. -/
theorem WritesGroups.exists_cons {base n : Nat} {cs : List Char} (h : WritesGroups base cs n) :
    ∃ c rest d, cs = c :: rest ∧ Count.digitValue? base c = some d := by
  obtain ⟨groups, hne, hnil, rfl, values, hvalues, -⟩ := h
  obtain ⟨g, groups, rfl⟩ := List.exists_cons_of_ne_nil hne
  obtain ⟨c, g, rfl⟩ := List.exists_cons_of_ne_nil fun hg : g = [] => hnil (hg ▸ List.mem_cons_self)
  obtain ⟨d, -, hd⟩ := exists_of_forall₂_left hvalues c (by simp)
  cases groups with
  | nil => exact ⟨c, g, d, List.intercalate_singleton, hd⟩
  | cons g' groups => exact ⟨c, _, d, List.intercalate_cons_cons, hd⟩

theorem readDecimal?_eq_some_iff {n : Nat} {cs : List Char} :
    readDecimal? cs = some n ↔
      (cs = ['0'] ∨ cs.head? ≠ some '0') ∧ WritesGroups 10 cs n ∧ n ≤ largestInteger := by
  rw [← readInBase?_eq_some_iff (by decide)]
  unfold readDecimal?
  split
  · next c rest => simp
  · next hzeros =>
    refine (and_iff_right ?_).symm
    rcases cs with - | ⟨c, - | ⟨d, rest⟩⟩
    · simp
    · by_cases hc : c = '0' <;> simp [hc]
    · right
      intro hhead
      obtain rfl : c = '0' := by simpa using hhead
      exact hzeros d rest rfl

theorem readInteger?_eq_some_iff {n : Nat} {cs : List Char} :
    readInteger? cs = some n ↔ SpellsInteger cs n ∧ n ≤ largestInteger := by
  constructor
  · intro h
    unfold readInteger? at h
    split at h
    · obtain ⟨hgroups, hle⟩ := (readInBase?_eq_some_iff (by decide)).mp h
      exact ⟨.marked (.inl ⟨rfl, rfl⟩) hgroups, hle⟩
    · obtain ⟨hgroups, hle⟩ := (readInBase?_eq_some_iff (by decide)).mp h
      exact ⟨.marked (.inr (.inl ⟨rfl, rfl⟩)) hgroups, hle⟩
    · obtain ⟨hgroups, hle⟩ := (readInBase?_eq_some_iff (by decide)).mp h
      exact ⟨.marked (.inr (.inr ⟨rfl, rfl⟩)) hgroups, hle⟩
    · obtain ⟨hzeros, hgroups, hle⟩ := readDecimal?_eq_some_iff.mp h
      exact ⟨.decimal (.inr (.inl rfl)) hzeros hgroups, hle⟩
    · obtain ⟨h, hn⟩ := Option.filter_eq_some_iff.mp h
      obtain ⟨hzeros, hgroups, hle⟩ := readDecimal?_eq_some_iff.mp h
      exact ⟨.decimal (.inr (.inr ⟨rfl, by simpa using hn⟩)) hzeros hgroups, hle⟩
    · obtain ⟨hzeros, hgroups, hle⟩ := readDecimal?_eq_some_iff.mp h
      exact ⟨.decimal (.inl rfl) hzeros hgroups, hle⟩
  · rintro ⟨hspells, hle⟩
    cases hspells with
    | @decimal sign cs n hsign hzeros hgroups =>
      have hread : readDecimal? cs = some n :=
        readDecimal?_eq_some_iff.mpr ⟨hzeros, hgroups, hle⟩
      obtain rfl | rfl | ⟨rfl, rfl⟩ := hsign
      · obtain ⟨c, rest, d, rfl, hd⟩ := hgroups.exists_cons
        rw [List.nil_append]
        unfold readInteger?
        split
        · next heq => simp [heq] at hzeros
        · next heq => simp [heq] at hzeros
        · next heq => simp [heq] at hzeros
        · next heq =>
          obtain rfl : c = '+' := (List.cons.inj heq).1
          simp [Count.digitValue?] at hd
        · next heq =>
          obtain rfl : c = '-' := (List.cons.inj heq).1
          simp [Count.digitValue?] at hd
        · exact hread
      · exact hread
      · simp [readInteger?, hread]
    | @marked mark base cs n hmark hgroups =>
      obtain ⟨rfl, rfl⟩ | ⟨rfl, rfl⟩ | ⟨rfl, rfl⟩ := hmark
      · exact (readInBase?_eq_some_iff (by decide)).mpr ⟨hgroups, hle⟩
      · exact (readInBase?_eq_some_iff (by decide)).mpr ⟨hgroups, hle⟩
      · exact (readInBase?_eq_some_iff (by decide)).mpr ⟨hgroups, hle⟩

theorem isIntegerChar_of_digitValue? {base d : Nat} {c : Char}
    (h : Count.digitValue? base c = some d) : isIntegerChar c = true := by
  obtain ⟨hvalue, -⟩ := Option.filter_eq_some_iff.mp h
  have halphanum : (c.isUpper || c.isLower || c.isDigit) = true := by
    rw [Bool.or_eq_true, Bool.or_eq_true]
    split at hvalue
    · next hdigit =>
      exact .inr (Bool.and_eq_true_iff.mpr ⟨decide_eq_true hdigit.1, decide_eq_true hdigit.2⟩)
    · split at hvalue
      · next hlower =>
        have hz : c.toNat ≤ 'z'.toNat := Nat.le_trans hlower.2 (by decide)
        exact .inl (.inr (Bool.and_eq_true_iff.mpr
          ⟨decide_eq_true hlower.1, decide_eq_true hz⟩))
      · split at hvalue
        · next hupper =>
          have hZ : c.toNat ≤ 'Z'.toNat := Nat.le_trans hupper.2 (by decide)
          exact .inl (.inl (decide_eq_true ⟨hupper.1, hZ⟩))
        · simp at hvalue
  have hletter : c.isAlphanum = true := halphanum
  simp [isIntegerChar, hletter]

/-- Integers are spelled without spaces. -/
theorem SpellsInteger.forall_mem {n : Nat} {cs : List Char} (h : SpellsInteger cs n) :
    ∀ c ∈ cs, isIntegerChar c = true := by
  have hgrouped : ∀ {base n cs}, WritesGroups base cs n → ∀ c ∈ cs, isIntegerChar c = true := by
    intro base n cs hgroups c hc
    obtain rfl | ⟨d, hd⟩ := hgroups.forall_mem c hc
    · decide
    · exact isIntegerChar_of_digitValue? hd
  cases h with
  | decimal hsign _ hgroups =>
    rw [List.forall_mem_append]
    refine ⟨?_, hgrouped hgroups⟩
    obtain rfl | rfl | ⟨rfl, -⟩ := hsign <;> simp [isIntegerChar]
  | marked hmark hgroups =>
    rw [List.forall_mem_cons, List.forall_mem_cons]
    refine ⟨by decide, ?_, hgrouped hgroups⟩
    obtain ⟨rfl, -⟩ | ⟨rfl, -⟩ | ⟨rfl, -⟩ := hmark <;> decide

theorem SpellsInteger.ne_nil {n : Nat} {cs : List Char} (h : SpellsInteger cs n) : cs ≠ [] := by
  cases h with
  | decimal _ _ hgroups =>
    obtain ⟨c, rest, -, rfl, -⟩ := hgroups.exists_cons
    simp
  | marked _ _ => simp

end Quadrille.SettingsFile
