import Quadrille.Archive.Read
import Quadrille.Proofs.Markup.Asides
import Quadrille.Proofs.Markup.Entities

/-!
# Documents read piece by piece

The scanner and the reader of a stored document run one after the other, but they are followed
together. A document is a sequence of pieces: character data, tags, asides and sections. `Reached`
says that the scanner is in character data and that the reader would be in some state if the text
ended here, and `Reads` says which pieces lead from one such situation to another. A document is
then read by putting its pieces together.

Character data is not an event until the next piece begins, and several runs of it that are written
side by side are one event. So the data that is still being collected belongs to what has been
reached: its entities are complete, and reading it together with what follows is reading one after
the other.

## Main definitions

* `Reached`, `Reads` — what the two machines have come to, and what a piece does to it

## Main results

* `reads_data_of_closed`, `reads_data_of_open` — character data outside and inside a field
* `reads_section_of_text`, `reads_section_of_ne_text` — sections inside and outside a text
* `reads_aside`, `reads_emptyTag`, `reads_element` — the other pieces
* `readChars_eq_of_reads` — what a document is read as in the end
-/

namespace Quadrille.Archive

open Markup (Scanner Aside Spells AttributeList IsName openingTag emptyTag closingTag sectionChars)

/-! ### Character data in the reader -/

namespace Reader

variable {r r₀ : Reader} {raw before value : List Char}

/-- Whether character data belongs to a part of a cell. -/
def Listening (r : Reader) : Prop :=
  r.current.isSome = true ∧ r.field.isSome = true

theorem text_of_not_listening (h : ¬r.Listening) (raw : List Char) : r.text raw = .ok r :=
  if_neg h

theorem text_of_listening (h : r.Listening) (raw : List Char) :
    r.text raw = r.add <$> plainText raw :=
  if_pos h

theorem text_of_unescape? (h : r.Listening) (hraw : Markup.unescape? raw = some value) :
    r.text raw = .ok (r.add (String.ofList value)) := by
  rw [text_of_listening h, plainText, hraw]
  rfl

theorem listening_add {s : String} : (r.add s).Listening ↔ r.Listening := by
  obtain ⟨begun, current, field, color, done⟩ := r
  rcases current with - | cell <;> rcases field with - | - | - <;> simp [Listening, add]

theorem add_add (r : Reader) (s t : String) : (r.add s).add t = r.add (s ++ t) := by
  obtain ⟨begun, current, field, color, done⟩ := r
  rcases current with - | cell <;> rcases field with - | - | - <;> simp [add, String.append_assoc]

theorem add_empty (r : Reader) : r.add "" = r := by
  obtain ⟨begun, current, field, color, done⟩ := r
  rcases current with - | cell <;> rcases field with - | - | - <;> simp [add]

/-- If data has been read, the reader was listening, and now has it; or it was not, and does not. -/
theorem text_eq_ok (h : r₀.text before = .ok r) :
    (r.Listening ∧ r₀.Listening ∧ ∃ read, Markup.unescape? before = some read ∧
      r = r₀.add (String.ofList read)) ∨ (¬r.Listening ∧ ¬r₀.Listening ∧ r = r₀) := by
  by_cases hlistening : r₀.Listening
  · cases hread : Markup.unescape? before with
    | none =>
      rw [text_of_listening hlistening, plainText, hread] at h
      simp at h
    | some read =>
      rw [text_of_unescape? hlistening hread] at h
      obtain rfl := Except.ok.inj h
      exact .inl ⟨listening_add.mpr hlistening, hlistening, read, rfl, rfl⟩
  · rw [text_of_not_listening hlistening] at h
    obtain rfl := Except.ok.inj h
    exact .inr ⟨hlistening, hlistening, rfl⟩

theorem text_append_of_not_listening (h : r₀.text before = .ok r) (hclosed : ¬r.Listening)
    (raw : List Char) : r₀.text (before ++ raw) = .ok r := by
  obtain ⟨hopen, -⟩ | ⟨-, hclosed, rfl⟩ := text_eq_ok h
  · exact absurd hopen hclosed
  · exact text_of_not_listening hclosed _

theorem text_append_of_listening (h : r₀.text before = .ok r) (hopen : r.Listening)
    (hraw : Spells raw value) : r₀.text (before ++ raw) = .ok (r.add (String.ofList value)) := by
  obtain ⟨-, hbefore, read, hread, rfl⟩ | ⟨hclosed, -⟩ := text_eq_ok h
  · rw [text_of_unescape? hbefore (hraw.unescape?_append hread), String.ofList_append, add_add]
  · exact absurd hopen hclosed

theorem text_nil (r : Reader) : r.text [] = .ok r := by
  by_cases h : r.Listening
  · rw [text_of_unescape? h Spells.nil.unescape?_eq]
    exact congrArg _ r.add_empty
  · exact text_of_not_listening h _

end Reader

/-! ### The two machines together -/

/-- The scanner is in character data, inside the elements `nesting`, and if the text ended here, the
reader would be in the state `r`. -/
structure Reached (s : Scanner) (nesting : List (List Char)) (r : Reader) : Prop where
  mode : ∃ run, s.mode = .text run
  nesting : s.nesting = nesting
  read : s.finish.events.reverse.foldlM Reader.step {} = .ok r

/-- Whether a piece of a document leads from a state inside some elements to another state inside
others, wherever it stands. -/
def Reads (cs : List Char) (nesting : List (List Char)) (r : Reader)
    (nesting' : List (List Char)) (r' : Reader) : Prop :=
  ∀ s, Reached s nesting r → Reached (s.run cs) nesting' r'

variable {s : Scanner} {nesting nesting' nesting'' : List (List Char)}
  {r r₁ r₂ : Reader} {cs ds name raw text blanks : List Char} {attributes : List Markup.Attribute}

theorem Reads.refl (nesting : List (List Char)) (r : Reader) : Reads [] nesting r nesting r :=
  fun _ h => h

theorem Reads.append (h : Reads cs nesting r nesting' r₁) (h' : Reads ds nesting' r₁ nesting'' r₂) :
    Reads (cs ++ ds) nesting r nesting'' r₂ := by
  intro s hs
  rw [Scanner.run_append]
  exact h' _ (h s hs)

/-- The data that is being collected is read last. -/
theorem reached_iff : Reached s nesting r ↔ ∃ run r₀, s.mode = .text run ∧ s.nesting = nesting ∧
    s.events.reverse.foldlM Reader.step {} = .ok r₀ ∧ r₀.text run.reverse = .ok r := by
  have settled : ∀ {run : List Char}, s.mode = .text run →
      s.finish.events.reverse.foldlM Reader.step {} =
        (s.events.reverse.foldlM Reader.step {}).bind fun r₀ => r₀.text run.reverse := by
    intro run hrun
    cases run with
    | nil =>
      rw [Scanner.finish, hrun]
      cases hread : s.events.reverse.foldlM Reader.step {} with
      | error e => simp [hread, Except.bind]
      | ok r₀ => simp [hread, Except.bind, Reader.text_nil]
    | cons c cs =>
      simp only [Scanner.finish, hrun, List.isEmpty_cons, Bool.false_eq_true, if_false,
        Scanner.emit, List.reverse_cons, List.foldlM_append]
      cases s.events.reverse.foldlM Reader.step {} with
      | error e => rfl
      | ok r₀ =>
        change (Reader.step r₀ (.text _)).bind _ = r₀.text _
        cases hstep : r₀.text (List.reverse cs ++ [c]) <;>
          simp [Reader.step, hstep, Except.bind, pure, Except.pure]
  constructor
  · rintro ⟨⟨run, hrun⟩, hnesting, hread⟩
    rw [settled hrun] at hread
    cases hevents : s.events.reverse.foldlM Reader.step {} with
    | error e => simp [hevents, Except.bind] at hread
    | ok r₀ =>
      rw [hevents] at hread
      exact ⟨run, r₀, hrun, hnesting, rfl, hread⟩
  · rintro ⟨run, r₀, hrun, hnesting, hevents, hread⟩
    refine ⟨⟨run, hrun⟩, hnesting, ?_⟩
    rw [settled hrun, hevents]
    exact hread

theorem reached_start : Reached {} [] {} :=
  ⟨⟨[], rfl⟩, rfl, rfl⟩

/-! ### Pieces -/

theorem Scanner.run_data {run : List Char} (hs : s.mode = .text run) (h : '<' ∉ raw) :
    s.run raw = s.goto (.text (raw.reverse ++ run)) := by
  have collected : (s.goto (.text run)).run raw = s.goto (.text (raw.reverse ++ run)) := by
    refine foldl_collect (fun run => s.goto (.text run)) (fun c hc run => ?_) run
    simp [Scanner.step, ne_of_mem_of_not_mem hc h]
  rwa [Scanner.goto_eq_self hs] at collected

/-- Data that makes the reader go from one state to another, behind any other data, does so as a
piece. -/
theorem reads_data (h : '<' ∉ raw)
    (hr : ∀ r₀ before, Reader.text r₀ before = .ok r → r₀.text (before ++ raw) = .ok r₁) :
    Reads raw nesting r nesting r₁ := by
  intro s hs
  obtain ⟨run, r₀, hrun, hnesting, hevents, hread⟩ := reached_iff.mp hs
  rw [Scanner.run_data hrun h]
  refine reached_iff.mpr ⟨raw.reverse ++ run, r₀, rfl, hnesting, hevents, ?_⟩
  rw [List.reverse_append, List.reverse_reverse]
  exact hr r₀ _ hread

/-- **Character data that belongs to no field** is passed over, whatever it is. -/
theorem reads_data_of_closed (h : '<' ∉ raw) (hclosed : ¬r.Listening) :
    Reads raw nesting r nesting r :=
  reads_data h fun _ _ hread => Reader.text_append_of_not_listening hread hclosed raw

/-- **Character data in a field** is added to the field. -/
theorem reads_data_of_open (h : '<' ∉ raw) (hraw : Spells raw text) (hopen : r.Listening) :
    Reads raw nesting r nesting (r.add (String.ofList text)) :=
  reads_data h fun _ _ hread => Reader.text_append_of_listening hread hopen hraw

namespace Reached

theorem finish_nesting (h : Reached s nesting r) : s.finish.nesting = nesting := by
  obtain ⟨run, hrun⟩ := h.mode
  rw [← h.nesting, Scanner.finish, hrun]
  cases run <;> rfl

/-- Whatever is not character data completes the data before it. -/
theorem run_opened (h : Reached s nesting r) (cs : List Char) :
    s.run ('<' :: cs) = (s.finish.goto .opened).run cs := by
  obtain ⟨run, hrun⟩ := h.mode
  rw [Scanner.run_cons, Scanner.finish, Scanner.step, hrun]
  rfl

theorem emit (h : Reached s nesting r) {e : Markup.Event} (he : r.step e = .ok r₁)
    (inner : List (List Char)) : Reached ({ s.finish with nesting := inner }.emit e) inner r₁ where
  mode := ⟨[], rfl⟩
  nesting := rfl
  read := by
    change (e :: s.finish.events).reverse.foldlM Reader.step {} = .ok r₁
    rw [List.reverse_cons, List.foldlM_append, h.read]
    change (r.step e).bind _ = _
    rw [he]
    rfl

end Reached

/-- A piece that is one event does to the reader what the event does. -/
theorem reads_event {e : Markup.Event} (hrun : ∀ t : Scanner, (t.goto .opened).run cs = t.emit e)
    (he : r.step e = .ok r₁) : Reads ('<' :: cs) nesting r nesting r₁ := by
  intro s hs
  rw [hs.run_opened, hrun]
  have := hs.emit he nesting
  rwa [← hs.finish_nesting] at this ⊢

/-- **Asides** are passed over. -/
theorem reads_aside (h : Aside cs) : Reads cs nesting r nesting r := by
  obtain ⟨rest, rfl⟩ := h.exists_eq_cons
  exact reads_event (fun _ => Scanner.run_aside h) rfl

theorem reads_section (h : ¬[']', ']', '>'] <:+: raw) (hr : r.rawText raw = r₁) :
    Reads (sectionChars raw) nesting r nesting r₁ :=
  reads_event (fun _ => Scanner.run_section h rfl) (congrArg Except.ok hr)

/-- **A section in a text** is added to it without being unescaped. -/
theorem reads_section_of_text (h : ¬[']', ']', '>'] <:+: raw) (hr : r.field = some .text) :
    Reads (sectionChars raw) nesting r nesting (r.add (String.ofList raw)) :=
  reads_section h (if_pos hr)

/-- **A section anywhere else** is passed over. -/
theorem reads_section_of_ne_text (h : ¬[']', ']', '>'] <:+: raw) (hr : r.field ≠ some .text) :
    Reads (sectionChars raw) nesting r nesting r :=
  reads_section h (if_neg hr)

/-- **An element without contents.** -/
theorem reads_emptyTag (hname : IsName name) (hattributes : AttributeList attributes cs)
    (hr : r.empty ⟨name, cs⟩ = .ok r₁) : Reads (emptyTag name cs) nesting r nesting r₁ :=
  reads_event (fun _ => Scanner.run_emptyTag hname hattributes) hr

theorem reads_openingTag (hname : IsName name) (hattributes : AttributeList attributes cs)
    (hr : r.start ⟨name, cs⟩ = .ok r₁) :
    Reads (openingTag name cs) nesting r (name :: nesting) r₁ := by
  intro s hs
  rw [openingTag, hs.run_opened, Scanner.run_openingTag hname hattributes, Scanner.openElement,
    hs.finish_nesting]
  exact hs.emit (e := .start ⟨name, cs⟩) hr _

theorem reads_closingTag (hname : IsName name) (hblanks : ∀ c ∈ blanks, Markup.isSpace c = true) :
    Reads (closingTag name blanks) (name :: nesting) r nesting (r.finish name) := by
  intro s hs
  rw [closingTag, hs.run_opened, Scanner.run_closingTag hname hblanks, Scanner.closeElement,
    hs.finish_nesting]
  simp only [if_true]
  exact hs.emit (e := .finish name) rfl nesting

/-- An element with some contents. -/
def elementChars (name attributes content blanks : List Char) : List Char :=
  openingTag name attributes ++ (content ++ closingTag name blanks)

/-- **An element** is read from its start tag through its contents to its end tag. -/
theorem reads_element {content : List Char} (hname : IsName name)
    (hattributes : AttributeList attributes cs) (hblanks : ∀ c ∈ blanks, Markup.isSpace c = true)
    (hr : r.start ⟨name, cs⟩ = .ok r₁)
    (hcontent : Reads content (name :: nesting) r₁ (name :: nesting) r₂) :
    Reads (elementChars name cs content blanks) nesting r nesting (r₂.finish name) :=
  (reads_openingTag hname hattributes hr).append
    (hcontent.append (reads_closingTag hname hblanks))

/-- **What a document is read as** is the cells that are done when its pieces have been read, even
if elements are open. -/
theorem readChars_eq_of_reads (h : Reads cs [] {} nesting r) (hr : r.begun = true)
    (hds : Markup.dropByteOrderMark ds = cs) : readChars ds = .ok r.done.reverse := by
  have whole := h _ reached_start
  obtain ⟨run, hrun⟩ := whole.mode
  have sound : (({} : Scanner).run cs).finish.fault? = none := by
    rw [Scanner.finish, hrun]
    cases run
    · simp [Scanner.fault?, hrun]
    · rfl
  simp only [readChars, Markup.scan, hds, whole.read, sound, hr, bind, Except.bind, if_true]
  rfl

end Quadrille.Archive
