import Quadrille.Proofs.Markup.Elements

/-!
# What stands beside the elements

Comments, instructions and document types are asides: the scan passes over them, wherever they
stand. A declaration at the front of a document is written like an instruction. A section holds
character data in which nothing has a meaning.

All of these end at the first occurrence of a mark, so what is inside may be anything in which the
mark does not occur. A document type ends at an angle bracket, and those inside it have to come in
pairs.

## Main definitions

* `Aside`, `sectionChars` — how asides and sections are written

## Main results

* `Scanner.run_aside`, `Scanner.run_section` — the events of asides and sections
-/

namespace Quadrille.Markup

/-- Whether angle brackets come in pairs. -/
inductive Bracketed : List Char → Prop where
  | nil : Bracketed []
  | plain {c : Char} {cs : List Char} (hc : c ≠ '<' ∧ c ≠ '>') (rest : Bracketed cs) :
      Bracketed (c :: cs)
  | nested {inner cs : List Char} (hinner : Bracketed inner) (rest : Bracketed cs) :
      Bracketed ('<' :: (inner ++ '>' :: cs))

/-- How a comment, an instruction or a document type is written. -/
inductive Aside : List Char → Prop where
  | comment {body : List Char} (h : ¬['-', '-', '>'] <:+: body) :
      Aside ('<' :: '!' :: '-' :: '-' :: (body ++ ['-', '-', '>']))
  | instruction {body : List Char} (h : ¬['?', '>'] <:+: '?' :: body) :
      Aside ('<' :: '?' :: (body ++ ['?', '>']))
  | doctype {body : List Char} (h : Bracketed body) (hname : ∃ c ∈ body, isSpace c = false) :
      Aside ('<' :: '!' :: (['D', 'O', 'C', 'T', 'Y', 'P', 'E'] ++ (body ++ ['>'])))

/-- A section with some character data in it. -/
def sectionChars (raw : List Char) : List Char :=
  '<' :: '!' :: '[' :: (['C', 'D', 'A', 'T', 'A', '['] ++ (raw ++ [']', ']', '>']))

theorem Aside.exists_eq_cons {cs : List Char} (h : Aside cs) : ∃ rest, cs = '<' :: rest := by
  cases h <;> exact ⟨_, rfl⟩

/-- A mark that does not occur in a text followed by an angle bracket is not there, either, where
that text with the mark behind it is broken off before an angle bracket. -/
theorem not_suffix_of_not_infix (mark : List Char) {body done rest : List Char}
    (h : ¬mark ++ ['>'] <:+: body) (hmark : '>' ∉ mark)
    (heq : body ++ mark = done ++ '>' :: rest) : ¬mark <:+ done := by
  rintro ⟨front, rfl⟩
  obtain ⟨more, -, hmore⟩ | ⟨more, hbody, hmore⟩ := List.append_eq_append_iff.mp heq
  · exact hmark (by simp [hmore])
  · cases more with
    | nil => exact hmark (by rw [← List.nil_append mark, ← hmore]; simp)
    | cons c more =>
      obtain ⟨rfl, -⟩ := List.cons.inj hmore
      exact h ⟨front, more, by simp [hbody]⟩

namespace Scanner

variable {s : Scanner} {body : List Char}

theorem suffix_of_reverse_eq {cs rest : List Char} {c d : Char} (h : cs.reverse = c :: d :: rest) :
    [d, c] <:+ cs :=
  ⟨rest.reverse, by rw [← List.reverse_reverse cs, h]; simp⟩

theorem run_comment (h : ¬['-', '-', '>'] <:+: body) :
    (s.goto (.comment ['-', '-'])).run (body ++ ['-', '-', '>']) = s.emit .aside := by
  have inside : (s.goto (.comment ['-', '-'])).run (body ++ ['-', '-']) =
      s.goto (.comment ((body ++ ['-', '-']).reverse ++ ['-', '-'])) := by
    refine foldl_collect_of_split (fun cs => s.goto (.comment cs)) fun done c rest heq => ?_
    have goesOn : ¬(c = '>' ∧ (done.reverse ++ ['-', '-']).take 2 = ['-', '-'] ∧
        4 ≤ (done.reverse ++ ['-', '-']).length) := by
      rintro ⟨rfl, hdashes, hlong⟩
      refine not_suffix_of_not_infix ['-', '-'] h (by decide) heq ?_
      rcases hdone : done.reverse with - | ⟨c, - | ⟨d, front⟩⟩
      · simp [hdone] at hlong
      · simp [hdone] at hlong
      · obtain ⟨rfl, rfl⟩ : c = '-' ∧ d = '-' := by simpa [hdone] using hdashes
        exact suffix_of_reverse_eq hdone
    simp only [Scanner.step, mode_goto, if_neg goesOn, goto_goto]
  rw [show body ++ ['-', '-', '>'] = (body ++ ['-', '-']) ++ ['>'] by simp, run_append, inside]
  simp [run, Scanner.step, endComment, emit, goto]

theorem run_instruction (h : ¬['?', '>'] <:+: '?' :: body) :
    (s.goto (.instruction ['?'])).run (body ++ ['?', '>']) = s.emit .aside := by
  have inside : (s.goto (.instruction ['?'])).run (body ++ ['?']) =
      s.goto (.instruction ((body ++ ['?']).reverse ++ ['?'])) := by
    refine foldl_collect_of_split (fun cs => s.goto (.instruction cs)) fun done c rest heq => ?_
    have goesOn : ¬(c = '>' ∧ (done.reverse ++ ['?']).head? = some '?') := by
      rintro ⟨rfl, hmark⟩
      have whole : '?' :: body ++ ['?'] = '?' :: done ++ '>' :: rest := by
        rw [List.cons_append, heq, List.cons_append]
      refine not_suffix_of_not_infix ['?'] h (by decide) whole ?_
      rw [← List.reverse_prefix, List.reverse_cons]
      obtain ⟨front, hfront⟩ := List.head?_eq_some_iff.mp hmark
      exact ⟨front, by rw [List.reverse_cons, hfront]; rfl⟩
    simp only [Scanner.step, mode_goto, if_neg goesOn, goto_goto]
  rw [show body ++ ['?', '>'] = (body ++ ['?']) ++ ['>'] by simp, run_append, inside]
  simp [run, Scanner.step, emit, goto]

theorem run_doctype {depth : Nat} {before : List Char} (h : Bracketed body) :
    (s.goto (.doctype depth before)).run body =
      s.goto (.doctype depth (body.reverse ++ before)) := by
  induction h generalizing depth before with
  | nil => rfl
  | @plain c cs hc _ ih =>
    have step : (s.goto (.doctype depth before)).step c =
        s.goto (.doctype depth (c :: before)) := by
      simp [Scanner.step, hc]
    rw [run_cons, step, ih]
    simp
  | @nested inner cs _ _ ihinner ih =>
    have opens : (s.goto (.doctype depth before)).step '<' =
        s.goto (.doctype (depth + 1) ('<' :: before)) := rfl
    have closes (before : List Char) : (s.goto (.doctype (depth + 1) before)).step '>' =
        s.goto (.doctype depth ('>' :: before)) := rfl
    rw [run_cons, opens, run_append, ihinner, run_cons, closes, ih]
    simp

/-- **An aside** is passed over. -/
theorem run_aside {cs : List Char} (h : Aside ('<' :: cs)) :
    (s.goto .opened).run cs = s.emit .aside := by
  cases h with
  | comment hbody => exact run_comment hbody
  | instruction hbody => exact run_instruction hbody
  | @doctype body hbody hname =>
    have named : body.all isSpace = false := by
      obtain ⟨c, hc, hspace⟩ := hname
      exact List.all_eq_false.mpr ⟨c, hc, by simp [hspace]⟩
    have announced : (s.goto .opened).run ('!' :: ['D', 'O', 'C', 'T', 'Y', 'P', 'E']) =
        s.goto (.doctype 0 ['E', 'P', 'Y', 'T', 'C', 'O', 'D']) := rfl
    rw [show '!' :: (['D', 'O', 'C', 'T', 'Y', 'P', 'E'] ++ (body ++ ['>'])) =
        ('!' :: ['D', 'O', 'C', 'T', 'Y', 'P', 'E']) ++ (body ++ ['>']) from rfl, run_append,
      announced, run_append, run_doctype hbody]
    simp [run, Scanner.step, endDoctype, named, emit, goto]

/-- **A section** is an event with what is in it. -/
theorem run_section {raw cs : List Char} (h : ¬[']', ']', '>'] <:+: raw)
    (hcs : sectionChars raw = '<' :: cs) : (s.goto .opened).run cs = s.emit (.section raw) := by
  obtain ⟨-, rfl⟩ := List.cons.inj hcs
  have announced : (s.goto .opened).run ('!' :: '[' :: ['C', 'D', 'A', 'T', 'A', '[']) =
      s.goto (.section ['[', 'A', 'T', 'A', 'D', 'C', '[']) := rfl
  have inside : (s.goto (.section ['[', 'A', 'T', 'A', 'D', 'C', '['])).run (raw ++ [']', ']']) =
      s.goto (.section ((raw ++ [']', ']']).reverse ++ ['[', 'A', 'T', 'A', 'D', 'C', '['])) := by
    refine foldl_collect_of_split (fun cs => s.goto (.section cs)) fun done c rest heq => ?_
    have goesOn : ¬(c = '>' ∧
        (done.reverse ++ ['[', 'A', 'T', 'A', 'D', 'C', '[']).take 2 = [']', ']']) := by
      rintro ⟨rfl, hmark⟩
      refine not_suffix_of_not_infix [']', ']'] h (by decide) heq ?_
      rcases hdone : done.reverse with - | ⟨c, - | ⟨d, front⟩⟩
      · simp [hdone] at hmark
      · simp [hdone] at hmark
      · obtain ⟨rfl, rfl⟩ : c = ']' ∧ d = ']' := by simpa [hdone] using hmark
        exact suffix_of_reverse_eq hdone
    simp only [Scanner.step, mode_goto, if_neg goesOn, goto_goto]
  rw [show '!' :: '[' :: (['C', 'D', 'A', 'T', 'A', '['] ++ (raw ++ [']', ']', '>'])) =
      ('!' :: '[' :: ['C', 'D', 'A', 'T', 'A', '[']) ++ ((raw ++ [']', ']']) ++ ['>']) by simp,
    run_append, announced, run_append, inside]
  simp [run, Scanner.step, endSection, emit, goto]

end Scanner

end Quadrille.Markup
