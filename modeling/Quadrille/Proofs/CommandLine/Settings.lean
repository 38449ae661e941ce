import Quadrille.Proofs.CommandLine.Spelling

/-!
# What a settings file says

A settings file is read line by line. A line says nothing, or it says the number of a setting: a key,
an equals sign and an integer, with spaces between them and perhaps a comment behind. The lines make
what they say, as long as no two of them are about the same setting.

All this is said here without the reader, and the reader goes by it. It never goes back, and it need
not, because each part of a line ends where the next one begins: neither a space nor the equals sign
continues a key, and nothing that a line may end with continues an integer.

Whether a line is right depends on those before it only by the settings that they have made. So the
complaint about a file names the first line with which the lines so far make nothing, whatever comes
after it.

## Main definitions

* `AreLines` — the lines of a text
* `Says`, `Makes` — what a line says, and what some lines make

## Main results

* `lines_eq_iff`, `readLine?_eq_some_iff` — texts are split into lines, and lines are read
* `ofText_eq_ok_iff` — the texts that are read, and what they make
* `ofText_eq_error_iff` — the line that is complained about
-/

namespace Quadrille.SettingsFile

/-! ### Lines -/

/-- The lines of a text. All but the last end with a line feed, before which there may be a carriage
return that does not belong to the line. -/
inductive AreLines : List (List Char) → List Char → Prop where
  | last {line : List Char} (h : '\n' ∉ line) : AreLines [line] line
  | feed {line cs : List Char} {rest : List (List Char)} (h : '\n' ∉ line)
      (hend : line.getLast? ≠ some '\r') (hrest : AreLines rest cs) :
      AreLines (line :: rest) (line ++ '\n' :: cs)
  | returnFeed {line cs : List Char} {rest : List (List Char)} (h : '\n' ∉ line)
      (hrest : AreLines rest cs) : AreLines (line :: rest) (line ++ '\r' :: '\n' :: cs)

theorem lines_of_not_mem {cs : List Char} (h : '\n' ∉ cs) : lines cs = [cs] := by
  rw [lines, List.splitOn_eq_singleton h]
  rfl

/-- The first line of a text, without what it ends with, and the lines of the rest. -/
theorem lines_append {piece : List Char} (h : '\n' ∉ piece) (cs : List Char) :
    lines (piece ++ '\n' :: cs) =
      (if piece.getLast? = some '\r' then piece.dropLast else piece) :: lines cs := by
  obtain ⟨p, ps, hps⟩ := List.exists_cons_of_ne_nil (List.splitOn_ne_nil '\n' cs)
  rw [lines, lines, List.splitOn_append_cons_self_of_not_mem h, hps]
  simp [List.dropLast_cons_cons, List.getLast?_cons_cons]

theorem lines_eq_of_areLines {ls : List (List Char)} {cs : List Char} (h : AreLines ls cs) :
    lines cs = ls := by
  induction h with
  | last h => exact lines_of_not_mem h
  | feed h hend _ ih => rw [lines_append h, if_neg hend, ih]
  | @returnFeed line cs rest h _ ih =>
    have hpiece : '\n' ∉ line ++ ['\r'] := by simpa using h
    have hwhole : line ++ '\r' :: '\n' :: cs = (line ++ ['\r']) ++ '\n' :: cs := by simp
    rw [hwhole, lines_append hpiece, if_pos (by simp), List.dropLast_concat, ih]

/-- The first line feed ends the first line. -/
theorem areLines_lines (cs : List Char) : AreLines (lines cs) cs := by
  induction hn : cs.length using Nat.strong_induction_on generalizing cs with
  | _ n ih =>
    subst hn
    by_cases h : '\n' ∈ cs
    · obtain ⟨piece, rest, rfl, hpiece⟩ := List.eq_append_cons_of_mem h
      have hrest : AreLines (lines rest) rest := ih _ (by simp; omega) rest rfl
      rw [lines_append hpiece]
      split
      · next hreturn =>
        obtain ⟨line, rfl⟩ := List.getLast?_eq_some_iff.mp hreturn
        rw [List.dropLast_concat, List.append_assoc]
        exact .returnFeed (by simpa using hpiece) hrest
      · next hend => exact .feed hpiece hend hrest
    · rw [lines_of_not_mem h]
      exact .last h

/-- **A text is split into its lines.** -/
theorem lines_eq_iff {ls : List (List Char)} {cs : List Char} : lines cs = ls ↔ AreLines ls cs :=
  ⟨fun h => h ▸ areLines_lines cs, lines_eq_of_areLines⟩

/-! ### Settings -/

/-- The settings that a file can make. -/
inductive Setting where
  | rows
  | columns
  | historyLimit
  deriving DecidableEq

/-- The key of a setting. -/
def Setting.key : Setting → List Char
  | .rows => "rows".toList
  | .columns => "columns".toList
  | .historyLimit => "history_limit".toList

/-- What a file makes of a setting. -/
def get (f : SettingsFile) : Setting → Option Nat
  | .rows => f.rows
  | .columns => f.columns
  | .historyLimit => f.historyLimit

/-- A file with one setting made anew. -/
def set (f : SettingsFile) : Setting → Nat → SettingsFile
  | .rows, n => { f with rows := some n }
  | .columns, n => { f with columns := some n }
  | .historyLimit, n => { f with historyLimit := some n }

variable {f f' : SettingsFile} {setting : Setting} {n : Nat}

theorem get_set (f : SettingsFile) (setting setting' : Setting) (n : Nat) :
    (f.set setting n).get setting' = if setting' = setting then some n else f.get setting' := by
  cases setting <;> cases setting' <;> rfl

theorem ext_get (h : ∀ setting n, f.get setting = some n ↔ f'.get setting = some n) : f = f' := by
  have hget : ∀ setting, f.get setting = f'.get setting := fun setting => Option.ext (h setting)
  cases f
  cases f'
  congr 1
  · exact hget .rows
  · exact hget .columns
  · exact hget .historyLimit

theorem assign?_key (f : SettingsFile) (setting : Setting) (n : Nat) :
    f.assign? setting.key n =
      if (f.get setting).isSome then none else some (f.set setting n) := by
  cases setting with
  | rows => exact if_pos rfl
  | columns => exact (if_neg (by decide)).trans (if_pos rfl)
  | historyLimit => exact (if_neg (by decide)).trans ((if_neg (by decide)).trans (if_pos rfl))

/-- Other keys are not those of settings. -/
theorem exists_key_of_assign? {key : List Char} (h : f.assign? key n = some f') :
    ∃ setting : Setting, key = setting.key := by
  unfold assign? at h
  split at h
  · next hkey => exact ⟨.rows, hkey⟩
  · split at h
    · next hkey => exact ⟨.columns, hkey⟩
    · split at h
      · next hkey => exact ⟨.historyLimit, hkey⟩
      · simp at h

theorem assign?_eq_some_iff {key : List Char} : f.assign? key n = some f' ↔
    ∃ setting : Setting, key = setting.key ∧ f.get setting = none ∧ f.set setting n = f' := by
  have hassign : ∀ setting : Setting, f.assign? setting.key n = some f' ↔
      f.get setting = none ∧ f.set setting n = f' := by
    intro setting
    rw [assign?_key]
    cases f.get setting <;> simp
  constructor
  · intro h
    obtain ⟨setting, rfl⟩ := exists_key_of_assign? h
    exact ⟨setting, rfl, (hassign setting).mp h⟩
  · rintro ⟨setting, rfl, h⟩
    exact (hassign setting).mpr h

/-! ### What a line says -/

/-- What a line says: nothing, or the number of a setting. -/
inductive Says : List Char → Option (Setting × Nat) → Prop where
  | nothing {line : List Char} (h : LineEnd line) : Says line none
  | setting {setting : Setting} {n : Nat} {indent key before after integer rest : List Char}
      (hindent : Spaces indent) (hkey : SpellsKey key setting.key) (hbefore : Spaces before)
      (hafter : Spaces after) (hinteger : SpellsInteger integer n) (hn : n ≤ largestInteger)
      (hrest : LineEnd rest) :
      Says (indent ++ (key ++ (before ++ '=' :: (after ++ (integer ++ rest))))) (some (setting, n))

/-- What is added to a file by what a line says. -/
def Adds (f : SettingsFile) : Option (Setting × Nat) → SettingsFile → Prop
  | none, f' => f = f'
  | some (setting, n), f' => f.get setting = none ∧ f.set setting n = f'

theorem exists_says_of_readLine? {line : List Char} (h : f.readLine? line = some f') :
    ∃ said, Says line said ∧ f.Adds said f' := by
  rw [readLine?] at h
  split at h
  · next hend => exact ⟨none, .nothing (isLineEnd_iff.mp hend), Option.some.inj h⟩
  · obtain ⟨⟨key, rest⟩, hkey, h⟩ := Option.bind_eq_some_iff.mp h
    dsimp only at h
    split at h
    · next rest' heq =>
      obtain ⟨n, hinteger, h⟩ := Option.bind_eq_some_iff.mp h
      split at h
      · next hend =>
        obtain ⟨setting, rfl, hnone, hset⟩ := assign?_eq_some_iff.mp h
        obtain ⟨hspells, hn⟩ := readInteger?_eq_some_iff.mp hinteger
        obtain ⟨indent, hindent, hline⟩ := exists_spaces_append line
        obtain ⟨spelled, hspelled, hskip⟩ := exists_of_readKey? hkey
        obtain ⟨before, hbefore, hrest⟩ := exists_spaces_append rest
        obtain ⟨after, hafter, hrest'⟩ := exists_spaces_append rest'
        refine ⟨some (setting, n), ?_, hnone, hset⟩
        rw [hline, hskip, hrest, heq, hrest',
          ← List.takeWhile_append_dropWhile (p := isIntegerChar) (l := skipSpace rest')]
        exact .setting hindent hspelled hbefore hafter hspells hn (isLineEnd_iff.mp hend)
      · simp at h
    · simp at h

theorem Setting.key_ne_nil (setting : Setting) : setting.key ≠ [] := by
  cases setting <;> decide

/-- A line that says something is read. -/
theorem readLine?_of_says {line : List Char} {said : Option (Setting × Nat)} (h : Says line said)
    (hadds : f.Adds said f') : f.readLine? line = some f' := by
  cases h with
  | nothing h =>
    rw [readLine?, if_pos (isLineEnd_iff.mpr h)]
    exact congrArg some hadds
  | @setting setting n indent key before after integer rest hindent hkey hbefore hafter hinteger hn
      hrest =>
    obtain ⟨c, tail, hcons, hspace, htab, hcomment⟩ := hkey.exists_cons setting.key_ne_nil
    -- Each part ends where the next one begins.
    have hskip : ∀ cs, skipSpace (indent ++ (key ++ cs)) = key ++ cs := fun cs =>
      skipSpace_append hindent (by rw [hcons]; simp [hspace, htab])
    have hend : ∀ cs, isLineEnd (indent ++ (key ++ cs)) = false := by
      intro cs
      rw [isLineEnd, hskip, hcons]
      simp [hcomment]
    have hread : ∀ cs, readKey? (key ++ (before ++ '=' :: cs)) =
        some (setting.key, before ++ '=' :: cs) := fun cs => by
      refine readKey?_append hkey setting.key_ne_nil fun d hd => ?_
      obtain rfl | rfl | hd := hbefore.mem_head?_append d hd
      · decide
      · decide
      · obtain rfl : '=' = d := by simpa using hd
        decide
    have hequals : ∀ cs, skipSpace (before ++ '=' :: cs) = '=' :: cs := fun cs =>
      skipSpace_append hbefore (by simp)
    have hnumber : skipSpace (after ++ (integer ++ rest)) = integer ++ rest := by
      refine skipSpace_append hafter fun d hd => ?_
      obtain ⟨e, es, rfl⟩ := List.exists_cons_of_ne_nil hinteger.ne_nil
      obtain rfl : e = d := by simpa using hd
      have he := hinteger.forall_mem e List.mem_cons_self
      constructor <;> rintro rfl <;> simp [isIntegerChar] at he
    have hstop : ∀ d ∈ rest.head?, isIntegerChar d = false := fun d hd => by
      obtain rfl | rfl | rfl := hrest.head d hd <;> decide
    have hassign : f.assign? setting.key n = some f' :=
      assign?_eq_some_iff.mpr ⟨setting, rfl, hadds⟩
    rw [readLine?, hend, hskip]
    simp only [Bool.false_eq_true, if_false, hread, hequals, hnumber, Option.bind_eq_bind,
      Option.bind_some, takeWhile_append_eq hinteger.forall_mem hstop,
      dropWhile_append_eq hinteger.forall_mem hstop,
      readInteger?_eq_some_iff.mpr ⟨hinteger, hn⟩, isLineEnd_iff.mpr hrest, if_true, hassign]

theorem readLine?_eq_some_iff {line : List Char} :
    f.readLine? line = some f' ↔ ∃ said, Says line said ∧ f.Adds said f' :=
  ⟨exists_says_of_readLine?, fun ⟨_, hsays, hadds⟩ => readLine?_of_says hsays hadds⟩

/-! ### What some lines make -/

/-- What becomes of a file when some lines have been said: no setting is made twice or over again,
and the settings are those that there were and those that have been made. -/
structure MadeFrom (f : SettingsFile) (said : List (Option (Setting × Nat))) (f' : SettingsFile) :
    Prop where
  once : (said.filterMap (Option.map Prod.fst)).Nodup
  fresh : ∀ setting n, some (setting, n) ∈ said → f.get setting = none
  get_eq_some_iff : ∀ setting n,
    f'.get setting = some n ↔ f.get setting = some n ∨ some (setting, n) ∈ said

variable {said : List (Option (Setting × Nat))} {ls : List (List Char)}

theorem mem_filterMap_fst : setting ∈ said.filterMap (Option.map Prod.fst) ↔
    ∃ n, some (setting, n) ∈ said := by
  simp only [List.mem_filterMap, Option.map_eq_some_iff, Prod.exists, exists_and_right]
  constructor
  · rintro ⟨a, hmem, _, ⟨n, rfl⟩, rfl⟩
    exact ⟨n, hmem⟩
  · rintro ⟨n, hmem⟩
    exact ⟨_, hmem, setting, ⟨n, rfl⟩, rfl⟩

theorem madeFrom_nil : MadeFrom f [] f' ↔ f = f' := by
  constructor
  · intro h
    exact ext_get fun setting n => by simpa using (h.get_eq_some_iff setting n).symm
  · rintro rfl
    exact ⟨List.nodup_nil, by simp, by simp⟩

/-- A setting that has been made counts among those that there are. -/
theorem get_set_or_mem_iff (hnone : f.get setting = none) (hother : ∀ n, some (setting, n) ∉ said)
    (setting' : Setting) (n' : Nat) :
    (f.set setting n).get setting' = some n' ∨ some (setting', n') ∈ said ↔
      f.get setting' = some n' ∨ some (setting', n') ∈ some (setting, n) :: said := by
  rw [get_set, List.mem_cons]
  by_cases heq : setting' = setting
  · subst heq
    simp [hnone, hother, eq_comm]
  · simp [heq]

/-- The lines after the first one go on from what the first one has added. -/
theorem madeFrom_cons {first : Option (Setting × Nat)} :
    MadeFrom f (first :: said) f' ↔ ∃ f₁, f.Adds first f₁ ∧ MadeFrom f₁ said f' := by
  rcases first with - | ⟨setting, n⟩
  · constructor
    · rintro ⟨honce, hfresh, hget⟩
      exact ⟨f, rfl, honce, by simpa using hfresh, by simpa using hget⟩
    · rintro ⟨_, rfl, honce, hfresh, hget⟩
      exact ⟨honce, by simpa using hfresh, by simpa using hget⟩
  · have honce : ((some (setting, n) :: said).filterMap (Option.map Prod.fst)).Nodup ↔
        (∀ n, some (setting, n) ∉ said) ∧ (said.filterMap (Option.map Prod.fst)).Nodup := by
      have hcons : (some (setting, n) :: said).filterMap (Option.map Prod.fst) =
          setting :: said.filterMap (Option.map Prod.fst) := rfl
      rw [hcons, List.nodup_cons, mem_filterMap_fst, not_exists]
    constructor
    · rintro ⟨hnodup, hfresh, hget⟩
      obtain ⟨hother, hnodup⟩ := honce.mp hnodup
      have hnone : f.get setting = none := hfresh setting n List.mem_cons_self
      refine ⟨f.set setting n, ⟨hnone, rfl⟩, hnodup, fun setting' n' hmem => ?_,
        fun setting' n' => ?_⟩
      · have hne : setting' ≠ setting := by
          rintro rfl
          exact hother n' hmem
        rw [get_set, if_neg hne]
        exact hfresh setting' n' (List.mem_cons_of_mem _ hmem)
      · rw [hget, get_set_or_mem_iff hnone hother]
    · rintro ⟨_, ⟨hnone, rfl⟩, hnodup, hfresh, hget⟩
      have hother : ∀ n', some (setting, n') ∉ said := fun n' hmem => by
        have hset := hfresh setting n' hmem
        simp [get_set] at hset
      refine ⟨honce.mpr ⟨hother, hnodup⟩, fun setting' n' hmem => ?_, fun setting' n' => ?_⟩
      · obtain heq | hmem := List.mem_cons.mp hmem
        · obtain ⟨rfl, -⟩ := Prod.mk.inj (Option.some.inj heq)
          exact hnone
        · have hset := hfresh setting' n' hmem
          rw [get_set] at hset
          split at hset
          · simp at hset
          · exact hset
      · rw [hget, get_set_or_mem_iff hnone hother]

/-- What some lines make: each says something or nothing, and no setting is made twice. -/
def Makes (ls : List (List Char)) (f : SettingsFile) : Prop :=
  ∃ said, List.Forall₂ Says ls said ∧ (said.filterMap (Option.map Prod.fst)).Nodup ∧
    ∀ setting n, f.get setting = some n ↔ some (setting, n) ∈ said

theorem readLines_eq_ok_iff {line : Nat} : readLines f line ls = .ok f' ↔
    ∃ said, List.Forall₂ Says ls said ∧ MadeFrom f said f' := by
  induction ls generalizing f line with
  | nil =>
    simp only [readLines, Except.ok.injEq, List.forall₂_nil_left_iff, exists_eq_left, madeFrom_nil]
  | cons cs ls ih =>
    have hstep : readLines f line (cs :: ls) = .ok f' ↔
        ∃ f₁, f.readLine? cs = some f₁ ∧ readLines f₁ (line + 1) ls = .ok f' := by
      rw [readLines]
      cases f.readLine? cs <;> simp
    rw [hstep]
    constructor
    · rintro ⟨f₁, hfirst, hrest⟩
      obtain ⟨first, hsays, hadds⟩ := readLine?_eq_some_iff.mp hfirst
      obtain ⟨said, hsaid, hmade⟩ := ih.mp hrest
      exact ⟨first :: said, .cons hsays hsaid, madeFrom_cons.mpr ⟨f₁, hadds, hmade⟩⟩
    · rintro ⟨_, hall, hmade⟩
      obtain ⟨first, said, hsays, hsaid, rfl⟩ := List.forall₂_cons_left_iff.mp hall
      obtain ⟨f₁, hadds, hmade⟩ := madeFrom_cons.mp hmade
      exact ⟨f₁, readLine?_eq_some_iff.mpr ⟨first, hsays, hadds⟩, ih.mpr ⟨said, hsaid, hmade⟩⟩

theorem readLines_append (f : SettingsFile) (line : Nat) (ls ls' : List (List Char)) :
    readLines f line (ls ++ ls') =
      (readLines f line ls).bind fun f₁ => readLines f₁ (line + ls.length) ls' := by
  induction ls generalizing f line with
  | nil => rfl
  | cons cs ls ih =>
    rw [List.cons_append, readLines, readLines]
    cases f.readLine? cs with
    | none => rfl
    | some f₁ =>
      dsimp only
      rw [ih, List.length_cons, Nat.add_assoc, Nat.add_comm 1]

/-- Reading stops at the first line that is wrong. -/
theorem readLines_eq_error_iff {line k : Nat} : readLines f line ls = .error k ↔
    ∃ before cs after, ls = before ++ cs :: after ∧ k = line + before.length ∧
      ∃ f₁, readLines f line before = .ok f₁ ∧ f₁.readLine? cs = none := by
  constructor
  · intro h
    induction ls generalizing f line with
    | nil => simp [readLines] at h
    | cons cs ls ih =>
      rw [readLines] at h
      cases hfirst : f.readLine? cs with
      | none =>
        rw [hfirst] at h
        exact ⟨[], cs, ls, rfl, (Except.error.inj h).symm, f, rfl, hfirst⟩
      | some f₁ =>
        rw [hfirst] at h
        obtain ⟨before, cs', after, rfl, rfl, f₂, hbefore, hnone⟩ := ih h
        refine ⟨cs :: before, cs', after, rfl, ?_, f₂, ?_, hnone⟩
        · rw [List.length_cons]
          omega
        · rw [readLines, hfirst]
          exact hbefore
  · rintro ⟨before, cs, after, rfl, rfl, f₁, hbefore, hnone⟩
    rw [readLines_append, hbefore, Except.bind, readLines, hnone]

theorem makes_iff (line : Nat) : Makes ls f ↔ readLines {} line ls = .ok f := by
  rw [readLines_eq_ok_iff]
  refine exists_congr fun said => and_congr_right fun _ => ?_
  have hempty : ∀ setting, get {} setting = none := by
    rintro (_ | _ | _) <;> rfl
  constructor
  · rintro ⟨honce, hget⟩
    exact ⟨honce, fun setting _ _ => hempty setting, by simpa [hempty] using hget⟩
  · rintro ⟨honce, -, hget⟩
    exact ⟨honce, by simpa [hempty] using hget⟩

/-- The text behind a mark of the byte order, if there is one. -/
def body (s : String) : List Char :=
  if s.toList.head? = some '\ufeff' then s.toList.tail else s.toList

theorem ofText_eq (s : String) : ofText s = readLines {} 1 (lines (body s)) := by
  unfold ofText body
  split
  · next heq => simp [heq]
  · next hmark =>
    rw [if_neg]
    intro hhead
    obtain ⟨cs, hcs⟩ := List.head?_eq_some_iff.mp hhead
    exact hmark cs hcs

/-- **Settings are read** from the texts that make them. -/
theorem ofText_eq_ok_iff {s : String} :
    ofText s = .ok f ↔ ∃ ls, AreLines ls (body s) ∧ Makes ls f := by
  simp only [ofText_eq, ← makes_iff 1, ← lines_eq_iff, exists_eq_left']

/-- Keys may be quoted, and underscores stand between digits. -/
example : ofText "# sizes\n\"r\\u006fws\" = 0x1_0 # wide\r\n\tcolumns=+7" =
    .ok { rows := some 16, columns := some 7 } := by
  cbv

/-- **The complaint about any other text** names the first line with which the lines so far make
nothing. -/
theorem ofText_eq_error_iff {s : String} {k : Nat} : ofText s = .error k ↔
    ∃ before cs after, AreLines (before ++ cs :: after) (body s) ∧ k = before.length + 1 ∧
      (∃ f, Makes before f) ∧ ∀ f, ¬Makes (before ++ [cs]) f := by
  rw [ofText_eq, readLines_eq_error_iff]
  refine exists_congr fun before => exists_congr fun cs => exists_congr fun after => ?_
  rw [← lines_eq_iff, Nat.add_comm]
  refine and_congr_right fun _ => and_congr_right fun _ => ?_
  simp only [makes_iff 1, readLines_append]
  constructor
  · rintro ⟨f₁, hbefore, hnone⟩
    refine ⟨⟨f₁, hbefore⟩, fun f => ?_⟩
    simp [hbefore, Except.bind, readLines, hnone]
  · rintro ⟨⟨f₁, hbefore⟩, hnot⟩
    refine ⟨f₁, hbefore, ?_⟩
    by_contra hsome
    obtain ⟨f₂, hf₂⟩ := Option.ne_none_iff_exists'.mp hsome
    exact hnot f₂ (by simp [hbefore, Except.bind, readLines, hf₂])

end Quadrille.SettingsFile
