import Quadrille.Proofs.Archive.Pieces

/-!
# Documents in any layout

What a document says does not depend on how it is laid out. A cell is described by its name, by the
pieces of its text and by the text of its color (`Description`), and there are many documents that
hold the cells of some descriptions (`Layout`): names may have prefixes, the parts of a cell come in
either order or are missing, and there may be blanks, comments, instructions and other elements
between everything. All of these are read as the same cells (`Describes`).

Both notions are stated without the scanner and the reader. In particular the color of a cell is
explained by the digits that a text consists of, not by the function that reads it.

The reader has three registers: the cell whose element is open, the field whose element is open,
and the color read so far. Between any two elements of a cell the field is empty, and between cells
there is no cell either. What is left of the last color does not matter, and so the lemmas only
claim that there is one.

## Main definitions

* `Description`, `Describes` — the cells of a document, and what they are read as
* `Padding` — what may stand beside the elements that matter
* `Layout` — the documents that hold the cells of some descriptions

## Main results

* `colors_iff` — the color that a text stands for
* `Padding.reads`, `Contents.reads`, `Children.reads`, `CellElement.reads`, `Cells.reads` — what
  each part of a document does to the reader
* `readChars_eq_of_layout`, `exists_read_of_layout` — reading does not depend on the layout
-/

namespace Quadrille.Archive

open Markup (Aside Attribute AttributeList HasLocalName IsName Spells emptyTag localName
  localName_eq_iff openingTag sectionChars)

/-! ### Colors -/

/-- Whether a text writes a number that a color can have: in digits, at least one, with or without a
plus sign, and between any blanks. -/
def WritesColor (text : List Char) (n : Nat) : Prop :=
  ∃ before plus digits after, (∀ c ∈ before, Text.isBlank c = true) ∧
    (∀ c ∈ after, Text.isBlank c = true) ∧ (plus = [] ∨ plus = ['+']) ∧ digits ≠ [] ∧
    text = before ++ ((plus ++ Digits.toChars digits) ++ after) ∧ Digits.value digits = n ∧
    n ≤ Count.largestColor

/-- Whether a text stands for a color: it writes the number of the color, or it writes no number and
the color is that of no color. -/
def Colors (text : List Char) (color : Color) : Prop :=
  WritesColor text color.toNat ∨ (∀ n, ¬WritesColor text n) ∧ color = noColor

theorem writesColor_iff {text : List Char} {n : Nat} :
    WritesColor text n ↔ Count.ofText? Count.largestColor (Text.trim text) = some n := by
  rw [Count.ofText?_trim_eq_some_iff]
  constructor
  · rintro ⟨before, plus, digits, after, hbefore, hafter, hplus, hne, htext, hvalue, hle⟩
    exact ⟨plus, digits, hplus, hne, ⟨before, after, hbefore, hafter, htext⟩, hvalue, hle⟩
  · rintro ⟨plus, digits, hplus, hne, ⟨before, after, hbefore, hafter, htext⟩, hvalue, hle⟩
    exact ⟨before, plus, digits, after, hbefore, hafter, hplus, hne, htext, hvalue, hle⟩

/-- **The color of a text** is what the reader takes it for. -/
theorem colors_iff {text : List Char} {color : Color} :
    Colors text color ↔ colorOfText (String.ofList text) = color := by
  rw [colorOfText, String.toList_ofList]
  simp only [Colors, writesColor_iff]
  cases hread : Count.ofText? Count.largestColor (Text.trim text) with
  | none => simp [eq_comm]
  | some n =>
    obtain ⟨-, -, -, -, -, -, hle⟩ := Count.ofText?_eq_some_iff.mp hread
    have small : n < 2 ^ 32 := Nat.lt_succ_of_le hle
    have : n = color.toNat ↔ UInt32.ofNat n = color := by
      rw [← UInt32.toNat_inj, UInt32.toNat_ofNat_of_lt' small]
    simpa using this

/-! ### Descriptions -/

/-- A piece of the text of a cell. -/
inductive Segment where
  /-- Character data, without its entities. -/
  | data (text : List Char)
  /-- A section. -/
  | verbatim (raw : List Char)
  /-- A comment or an instruction. -/
  | aside
  deriving DecidableEq, Repr

/-- What a piece of a text adds to it. -/
def Segment.text : Segment → List Char
  | .data text => text
  | .verbatim raw => raw
  | .aside => []

/-- The text that consists of some pieces. -/
def textOf (segments : List Segment) : List Char :=
  segments.flatMap Segment.text

/-- A cell as a document describes it. -/
structure Description where
  name : List Char
  text : Option (List Segment) := none
  color : Option (List Char) := none
  deriving DecidableEq, Repr

/-- Whether a cell is the one described: an absent text is empty, and an absent color is none. -/
structure Describes (d : Description) (cell : StoredCell) : Prop where
  name : cell.name = String.ofList d.name
  text : cell.text = String.ofList (d.text.elim [] textOf)
  color : d.color.elim (cell.color = noColor) fun text => Colors text cell.color

/-- The cell that is described. -/
def Description.stored (d : Description) : StoredCell where
  name := String.ofList d.name
  text := String.ofList (d.text.elim [] textOf)
  color := d.color.elim noColor fun text => colorOfText (String.ofList text)

theorem Description.describes_stored (d : Description) : Describes d d.stored where
  name := rfl
  text := rfl
  color := by
    obtain ⟨name, text, - | color⟩ := d
    · rfl
    · exact colors_iff.mpr rfl

/-! ### How documents are written -/

/-- How a piece of a text is written. -/
inductive Segment.Written : Segment → List Char → Prop where
  | data {raw text : List Char} (hraw : Spells raw text) (h : '<' ∉ raw) : Written (.data text) raw
  | verbatim {raw : List Char} (h : ¬[']', ']', '>'] <:+: raw) :
      Written (.verbatim raw) (sectionChars raw)
  | aside {cs : List Char} (h : Aside cs) : Written .aside cs

/-- How a text is written that consists of some pieces. -/
inductive Contents : List Segment → List Char → Prop where
  | nil : Contents [] []
  | cons {segment : Segment} {segments : List Segment} {cs ds : List Char}
      (h : segment.Written cs) (rest : Contents segments ds) :
      Contents (segment :: segments) (cs ++ ds)

/-- How the element of a field is written, given its name without prefix. -/
inductive FieldElement (own : List Char) : List Segment → List Char → Prop where
  | empty {name cs : List Char} {attributes : List Attribute} (hname : IsName name)
      (hown : HasLocalName name own) (hattributes : AttributeList attributes cs) :
      FieldElement own [] (emptyTag name cs)
  | full {name cs content blanks : List Char} {attributes : List Attribute}
      {segments : List Segment} (hname : IsName name) (hown : HasLocalName name own)
      (hattributes : AttributeList attributes cs) (hcontent : Contents segments content)
      (hblanks : ∀ c ∈ blanks, Markup.isSpace c = true) :
      FieldElement own segments (elementChars name cs content blanks)

/-- What may stand beside the elements that matter: blanks and any other character data, asides,
sections, and elements with certain names. -/
inductive Padding (passed : List Char → Prop) : List Char → Prop where
  | nil : Padding passed []
  | data {raw cs : List Char} (h : '<' ∉ raw) (rest : Padding passed cs) :
      Padding passed (raw ++ cs)
  | aside {cs ds : List Char} (h : Aside cs) (rest : Padding passed ds) : Padding passed (cs ++ ds)
  | verbatim {raw cs : List Char} (h : ¬[']', ']', '>'] <:+: raw) (rest : Padding passed cs) :
      Padding passed (sectionChars raw ++ cs)
  | empty {name cs ds : List Char} {attributes : List Attribute} (hname : IsName name)
      (hpassed : passed name) (hattributes : AttributeList attributes cs)
      (rest : Padding passed ds) : Padding passed (emptyTag name cs ++ ds)
  | element {name cs content blanks ds : List Char} {attributes : List Attribute}
      (hname : IsName name) (hpassed : passed name) (hattributes : AttributeList attributes cs)
      (hcontent : Padding passed content) (hblanks : ∀ c ∈ blanks, Markup.isSpace c = true)
      (rest : Padding passed ds) : Padding passed (elementChars name cs content blanks ++ ds)

/-- The elements that may stand beside the root: none. -/
def PassedOutside (_ : List Char) : Prop :=
  False

/-- The elements that may stand beside cells: all but cells. -/
def PassedInRoot (name : List Char) : Prop :=
  ¬HasLocalName name cellName

/-- The elements that may stand beside the parts of a cell: all but cells and those parts. -/
def PassedInCell (name : List Char) : Prop :=
  ¬HasLocalName name cellName ∧ ¬HasLocalName name textName ∧ ¬HasLocalName name colorName

/-- How the inside of a cell is written: text and color come in either order, and each of them may
be missing. There are no sections in a color. -/
inductive Children : Option (List Segment) → Option (List Char) → List Char → Prop where
  | nil {cs : List Char} (h : Padding PassedInCell cs) : Children none none cs
  | text {segments : List Segment} {color : Option (List Char)} {cs element ds : List Char}
      (h : Padding PassedInCell cs) (helement : FieldElement textName segments element)
      (rest : Children none color ds) : Children (some segments) color (cs ++ (element ++ ds))
  | color {text : Option (List Segment)} {segments : List Segment} {cs element ds : List Char}
      (h : Padding PassedInCell cs) (helement : FieldElement colorName segments element)
      (hdata : ∀ raw, .verbatim raw ∉ segments) (rest : Children text none ds) :
      Children text (some (textOf segments)) (cs ++ (element ++ ds))

/-- Whether some attributes give a cell its name: their names are different, and exactly one of them
is the one for the name of a cell. -/
structure NamesCell (attributes : List Attribute) (name : List Char) : Prop where
  nodup : (attributes.map Attribute.name).Nodup
  unique : ∃ before own value after, attributes = before ++ ⟨own, value⟩ :: after ∧
    HasLocalName own indexName ∧ Spells value name ∧
    ∀ a ∈ before ++ after, ¬HasLocalName a.name indexName

/-- How the element of a cell is written. -/
inductive CellElement : Description → List Char → Prop where
  | empty {name own cs : List Char} {attributes : List Attribute} (hname : IsName own)
      (hown : HasLocalName own cellName) (hattributes : AttributeList attributes cs)
      (hnames : NamesCell attributes name) : CellElement { name } (emptyTag own cs)
  | full {d : Description} {own cs content blanks : List Char} {attributes : List Attribute}
      (hname : IsName own) (hown : HasLocalName own cellName)
      (hattributes : AttributeList attributes cs) (hnames : NamesCell attributes d.name)
      (hcontent : Children d.text d.color content)
      (hblanks : ∀ c ∈ blanks, Markup.isSpace c = true) :
      CellElement d (elementChars own cs content blanks)

/-- How the elements of some cells are written. -/
inductive Cells : List Description → List Char → Prop where
  | nil {cs : List Char} (h : Padding PassedInRoot cs) : Cells [] cs
  | cons {d : Description} {ds : List Description} {cs element rest : List Char}
      (h : Padding PassedInRoot cs) (helement : CellElement d element) (hrest : Cells ds rest) :
      Cells (d :: ds) (cs ++ (element ++ rest))

/-- How the outermost element is written. -/
inductive RootElement : List Description → List Char → Prop where
  | empty {own cs : List Char} {attributes : List Attribute} (hname : IsName own)
      (hown : HasLocalName own rootName) (hattributes : AttributeList attributes cs) :
      RootElement [] (emptyTag own cs)
  | full {ds : List Description} {own cs content blanks : List Char}
      {attributes : List Attribute} (hname : IsName own) (hown : HasLocalName own rootName)
      (hattributes : AttributeList attributes cs) (hcontent : Cells ds content)
      (hblanks : ∀ c ∈ blanks, Markup.isSpace c = true) :
      RootElement ds (elementChars own cs content blanks)

/-- The documents that hold the cells of some descriptions. There may be a byte order mark at the
front, but only one. -/
inductive Layout (ds : List Description) : List Char → Prop where
  | intro {mark before root after : List Char} (hmark : mark = [] ∨ mark = ['\ufeff'])
      (hfirst : before.head? ≠ some '\ufeff') (hbefore : Padding PassedOutside before)
      (hroot : RootElement ds root) (hafter : Padding PassedOutside after) :
      Layout ds (mark ++ (before ++ (root ++ after)))

/-! ### What each part does to the reader -/

variable {r : Reader} {nesting : List (List Char)} {passed : List Char → Prop}
  {name own cs text : List Char} {cell : StoredCell} {register : String} {done : List StoredCell}
  {attributes : List Attribute} {segments : List Segment} {d : Description}
  {ds : List Description}

namespace Reader

/-- Whether elements of a name mean nothing to the reader. -/
structure Passes (r : Reader) (name : List Char) : Prop where
  begun : r.begun = true
  closed : r.field = none
  noCell : localName name ≠ cellName
  noField : r.current.isSome = true → localName name ≠ textName ∧ localName name ≠ colorName

theorem begin_of_begun (h : r.begun = true) (tag : Markup.Tag) : r.begin tag = .ok r :=
  if_pos h

theorem Passes.start_eq (h : r.Passes name) : r.start ⟨name, cs⟩ = .ok r := by
  rw [start, begin_of_begun h.begun]
  by_cases hcurrent : r.current.isSome = true
  · obtain ⟨htext, hcolor⟩ := h.noField hcurrent
    simp [bind, Except.bind, pure, Except.pure, h.noCell, htext, hcolor]
  · simp [bind, Except.bind, pure, Except.pure, h.noCell, hcurrent]

theorem empty_of_begun (h : r.begun = true) (hname : localName name ≠ cellName) :
    r.empty ⟨name, cs⟩ = .ok r := by
  rw [empty, begin_of_begun h]
  simp [bind, Except.bind, pure, Except.pure, hname]

theorem Passes.finish_eq (h : r.Passes name) : r.finish name = r := by
  obtain ⟨begun, current, field, register, done⟩ := r
  obtain rfl : field = none := h.closed
  cases current with
  | some cell =>
    obtain ⟨htext, hcolor⟩ := h.noField rfl
    simp [finish, h.noCell, htext, hcolor]
  | none => simp [finish, h.noCell]

theorem field_add (r : Reader) (s : String) : (r.add s).field = r.field := by
  obtain ⟨begun, current, field, register, done⟩ := r
  rcases current with - | cell <;> rcases field with - | - | - <;> rfl

end Reader

/-- **Padding** changes nothing. -/
theorem Padding.reads (h : Padding passed cs) (hr : r.field = none)
    (hpassed : ∀ name, passed name → r.Passes name) : Reads cs nesting r nesting r := by
  have closed : ¬r.Listening := by simp [Reader.Listening, hr]
  induction h generalizing nesting with
  | nil => exact .refl nesting r
  | data h _ ih => exact (reads_data_of_closed h closed).append ih
  | aside h _ ih => exact (reads_aside h).append ih
  | verbatim h _ ih =>
    exact (reads_section_of_ne_text h (by simp [hr])).append ih
  | empty hname hpass hattributes _ ih =>
    have pass := hpassed _ hpass
    have unread : Reads _ nesting r nesting r :=
      reads_emptyTag hname hattributes (Reader.empty_of_begun pass.begun pass.noCell)
    exact unread.append ih
  | element hname hpass hattributes _ hblanks _ ihcontent ih =>
    have pass := hpassed _ hpass
    have element : Reads _ nesting r nesting _ :=
      reads_element hname hattributes hblanks pass.start_eq ihcontent
    rw [pass.finish_eq] at element
    exact element.append ih

/-- **The pieces of a text** are added to the field that is open. -/
theorem Contents.reads (h : Contents segments cs) (hopen : r.Listening)
    (htext : ∀ raw, .verbatim raw ∈ segments → r.field = some .text) :
    Reads cs nesting r nesting (r.add (String.ofList (textOf segments))) := by
  induction h generalizing r with
  | nil =>
    rw [show textOf [] = [] from rfl, String.ofList_nil, Reader.add_empty]
    exact .refl nesting r
  | @cons segment segments cs ds hsegment _ ih =>
    have first : Reads cs nesting r nesting (r.add (String.ofList segment.text)) := by
      cases hsegment with
      | data hraw h => exact reads_data_of_open h hraw hopen
      | @verbatim raw h => exact reads_section_of_text h (htext raw List.mem_cons_self)
      | aside h =>
        rw [show Segment.text .aside = [] from rfl, String.ofList_nil, Reader.add_empty]
        exact reads_aside h
    have later := ih (r := r.add (String.ofList segment.text)) (Reader.listening_add.mpr hopen)
      fun raw hraw => by
        rw [Reader.field_add]
        exact htext raw (List.mem_cons_of_mem _ hraw)
    rw [Reader.add_add, ← String.ofList_append] at later
    exact first.append later

/-- **The element of a text** adds it to the cell. -/
theorem FieldElement.reads_text (h : FieldElement textName segments cs) :
    Reads cs nesting ⟨true, some cell, none, register, done⟩ nesting
      ⟨true, some { cell with text := cell.text ++ String.ofList (textOf segments) }, none,
        register, done⟩ := by
  have noCell {name : List Char} (hown : HasLocalName name textName) :
      localName name ≠ cellName := by
    rw [localName_eq_iff.mpr hown]
    decide
  cases h with
  | empty hname hown hattributes =>
    rw [show textOf [] = [] from rfl, String.ofList_nil, String.append_empty]
    exact reads_emptyTag hname hattributes (Reader.empty_of_begun rfl (noCell hown))
  | @full name cs content blanks attributes segments hname hown hattributes hcontent hblanks =>
    have starts : Reader.start ⟨true, some cell, none, register, done⟩ ⟨name, cs⟩ =
        .ok ⟨true, some cell, some .text, register, done⟩ := by
      simp [Reader.start, Reader.begin, localName_eq_iff.mpr hown, bind, Except.bind, pure,
        Except.pure, show textName ≠ cellName by decide]
    have element := reads_element hname hattributes hblanks starts
      (hcontent.reads ⟨rfl, rfl⟩ fun _ _ => rfl : Reads content (name :: nesting) _ _ _)
    simpa [Reader.add, Reader.finish, localName_eq_iff.mpr hown,
      show textName ≠ cellName by decide, show textName ≠ colorName by decide] using element

/-- **The element of a color** gives it to a cell that has none. -/
theorem FieldElement.reads_color (h : FieldElement colorName segments cs)
    (hdata : ∀ raw, .verbatim raw ∉ segments) (hcell : cell.color = noColor)
    (nesting : List (List Char)) (register : String) (done : List StoredCell) :
    ∃ register', Reads cs nesting ⟨true, some cell, none, register, done⟩ nesting
      ⟨true, some { cell with color := colorOfText (String.ofList (textOf segments)) }, none,
        register', done⟩ := by
  have noCell {name : List Char} (hown : HasLocalName name colorName) :
      localName name ≠ cellName := by
    rw [localName_eq_iff.mpr hown]
    decide
  cases h with
  | empty hname hown hattributes =>
    refine ⟨register, ?_⟩
    rw [show colorOfText (String.ofList (textOf [])) = cell.color from hcell ▸ by decide]
    exact reads_emptyTag hname hattributes (Reader.empty_of_begun rfl (noCell hown))
  | @full name cs content blanks attributes segments hname hown hattributes hcontent hblanks =>
    have starts : Reader.start ⟨true, some cell, none, register, done⟩ ⟨name, cs⟩ =
        .ok ⟨true, some cell, some .color, "", done⟩ := by
      simp [Reader.start, Reader.begin, localName_eq_iff.mpr hown, bind, Except.bind, pure,
        Except.pure, show colorName ≠ cellName by decide, show colorName ≠ textName by decide]
    have element := reads_element hname hattributes hblanks starts
      (hcontent.reads ⟨rfl, rfl⟩ fun raw hraw => absurd hraw (hdata raw) :
        Reads content (name :: nesting) _ _ _)
    refine ⟨String.ofList (textOf segments), ?_⟩
    simpa [Reader.add, Reader.finish, localName_eq_iff.mpr hown,
      show colorName ≠ cellName by decide] using element

/-- **The inside of a cell** adds text and color to the cell. -/
theorem Children.reads {text : Option (List Segment)} {color : Option (List Char)}
    (h : Children text color cs) (cell : StoredCell)
    (hcell : color.isSome = true → cell.color = noColor) (nesting : List (List Char))
    (register : String) (done : List StoredCell) :
    ∃ register', Reads cs nesting ⟨true, some cell, none, register, done⟩ nesting
      ⟨true, some { cell with
          text := cell.text ++ String.ofList (text.elim [] textOf)
          color := color.elim cell.color fun text => colorOfText (String.ofList text) }, none,
        register', done⟩ := by
  have padding {cs : List Char} (h : Padding PassedInCell cs) (cell : StoredCell)
      (register : String) :
      Reads cs nesting ⟨true, some cell, none, register, done⟩ nesting
        ⟨true, some cell, none, register, done⟩ :=
    h.reads rfl fun name ⟨hcell, htext, hcolor⟩ =>
      ⟨rfl, rfl, mt localName_eq_iff.mp hcell,
        fun _ => ⟨mt localName_eq_iff.mp htext, mt localName_eq_iff.mp hcolor⟩⟩
  induction h generalizing cell register with
  | nil h =>
    refine ⟨register, ?_⟩
    simpa using padding h cell register
  | @text segments color cs element ds h helement _ ih =>
    obtain ⟨register', later⟩ :=
      ih { cell with text := cell.text ++ String.ofList (textOf segments) } hcell register
    refine ⟨register', (padding h cell register).append (helement.reads_text.append ?_)⟩
    simpa using later
  | @color text segments cs element ds h helement hdata _ ih =>
    obtain ⟨register₁, given⟩ := helement.reads_color hdata (hcell rfl) nesting register done
    obtain ⟨register', later⟩ :=
      ih { cell with color := colorOfText (String.ofList (textOf segments)) } (by simp) register₁
    exact ⟨register', (padding h cell register).append (given.append later)⟩

/-! ### Cells -/

theorem foldlM_nameAmong (h : ∀ a ∈ attributes, ¬HasLocalName a.name indexName)
    (found : Option String) :
    attributes.foldlM (fun found a =>
      if localName a.name = indexName then some <$> plainText a.value else .ok found) found =
      .ok found := by
  induction attributes with
  | nil => rfl
  | cons a attributes ih =>
    obtain ⟨ha, hattributes⟩ := List.forall_mem_cons.mp h
    rw [List.foldlM_cons, if_neg (mt localName_eq_iff.mp ha)]
    exact ih hattributes

/-- **The name of a cell** is read off its attributes. -/
theorem cellOfTag_eq (hattributes : AttributeList attributes cs) (h : NamesCell attributes name) :
    cellOfTag ⟨own, cs⟩ = .ok { name := String.ofList name } := by
  have named : nameAmong attributes = .ok (some (String.ofList name)) := by
    obtain ⟨before, own, value, after, rfl, hown, hvalue, hothers⟩ := h.unique
    have read : plainText value = .ok (String.ofList name) := by rw [plainText, hvalue.unescape?_eq]
    have skipped := foldlM_nameAmong (fun a ha => hothers a (List.mem_append_left _ ha)) none
    rw [nameAmong, List.foldlM_append, skipped]
    change List.foldlM _ _ _ = _
    rw [List.foldlM_cons, if_pos (localName_eq_iff.mpr hown), read]
    exact foldlM_nameAmong (fun a ha => hothers a (List.mem_append_right _ ha)) _
  rw [cellOfTag, hattributes.readAttributes_eq h.nodup]
  simp [named, bind, Except.bind, pure, Except.pure]

/-- The start tag of a cell makes it the one that is open. -/
theorem start_cell (hown : HasLocalName own cellName) (hattributes : AttributeList attributes cs)
    (hnames : NamesCell attributes name) :
    Reader.start ⟨true, none, none, register, done⟩ ⟨own, cs⟩ =
      .ok ⟨true, some { name := String.ofList name }, none, register, done⟩ := by
  simp [Reader.start, Reader.begin, localName_eq_iff.mpr hown, cellOfTag_eq hattributes hnames,
    bind, Except.bind, pure, Except.pure]

/-- **The element of a cell** puts the cell on top of those that are done. -/
theorem CellElement.reads (h : CellElement d cs) (nesting : List (List Char)) (register : String)
    (done : List StoredCell) :
    ∃ register', Reads cs nesting ⟨true, none, none, register, done⟩ nesting
      ⟨true, none, none, register', d.stored :: done⟩ := by
  cases h with
  | @empty name own cs attributes hname hown hattributes hnames =>
    refine ⟨register, reads_emptyTag hname hattributes ?_⟩
    simp [Reader.empty, Reader.begin, localName_eq_iff.mpr hown, cellOfTag_eq hattributes hnames,
      Description.stored, bind, Except.bind, pure, Except.pure]
  | @full d own cs content blanks attributes hname hown hattributes hnames hcontent hblanks =>
    obtain ⟨register', inside⟩ := hcontent.reads { name := String.ofList d.name } (fun _ => rfl)
      (own :: nesting) register done
    have element := reads_element hname hattributes hblanks
      (start_cell hown hattributes hnames) inside
    refine ⟨register', ?_⟩
    simpa [Reader.finish, localName_eq_iff.mpr hown, Description.stored] using element

/-- **The elements of some cells** put the cells on top of those that are done. -/
theorem Cells.reads (h : Cells ds cs) (nesting : List (List Char)) (register : String)
    (done : List StoredCell) :
    ∃ register', Reads cs nesting ⟨true, none, none, register, done⟩ nesting
      ⟨true, none, none, register', (ds.map Description.stored).reverse ++ done⟩ := by
  have padding {cs : List Char} (h : Padding PassedInRoot cs) (register : String)
      (done : List StoredCell) :
      Reads cs nesting ⟨true, none, none, register, done⟩ nesting
        ⟨true, none, none, register, done⟩ :=
    h.reads rfl fun name hcell => ⟨rfl, rfl, mt localName_eq_iff.mp hcell, by simp⟩
  induction h generalizing register done with
  | nil h => exact ⟨register, padding h register done⟩
  | @cons d ds cs element rest h helement _ ih =>
    obtain ⟨register₁, first⟩ := helement.reads nesting register done
    obtain ⟨register', later⟩ := ih register₁ (d.stored :: done)
    refine ⟨register', (padding h register done).append (first.append ?_)⟩
    simpa using later

/-! ### Documents -/

theorem RootElement.reads (h : RootElement ds cs) (nesting : List (List Char)) :
    ∃ register', Reads cs nesting {} nesting
      ⟨true, none, none, register', (ds.map Description.stored).reverse⟩ := by
  cases h with
  | @empty own cs attributes hname hown hattributes =>
    refine ⟨"", reads_emptyTag hname hattributes ?_⟩
    simp [Reader.empty, Reader.begin, localName_eq_iff.mpr hown, bind, Except.bind, pure,
      Except.pure, show rootName ≠ cellName by decide]
  | @full ds own cs content blanks attributes hname hown hattributes hcontent hblanks =>
    have starts : Reader.start {} ⟨own, cs⟩ = .ok ⟨true, none, none, "", []⟩ := by
      simp [Reader.start, Reader.begin, localName_eq_iff.mpr hown, bind, Except.bind, pure,
        Except.pure, show rootName ≠ cellName by decide]
    obtain ⟨register', inside⟩ := hcontent.reads (own :: nesting) "" []
    have element := reads_element hname hattributes hblanks starts inside
    refine ⟨register', ?_⟩
    simpa [Reader.finish, localName_eq_iff.mpr hown, show rootName ≠ cellName by decide,
      show rootName ≠ colorName by decide, show rootName ≠ textName by decide] using element

theorem RootElement.exists_eq_cons (h : RootElement ds cs) : ∃ rest, cs = '<' :: rest := by
  cases h <;> exact ⟨_, rfl⟩

theorem dropByteOrderMark_append {mark : List Char} (hmark : mark = [] ∨ mark = ['\ufeff'])
    (hcs : cs.head? ≠ some '\ufeff') : Markup.dropByteOrderMark (mark ++ cs) = cs := by
  obtain rfl | rfl := hmark
  · rw [List.nil_append]
    unfold Markup.dropByteOrderMark
    split
    · simp at hcs
    · rfl
  · rfl

/-- **A document in any layout** is read as the cells that it describes. -/
theorem readChars_eq_of_layout (h : Layout ds cs) :
    readChars cs = .ok (ds.map Description.stored) := by
  obtain @⟨mark, before, root, after, hmark, hfirst, hbefore, hroot, hafter⟩ := h
  obtain ⟨register, inside⟩ := hroot.reads []
  have front : Reads before [] {} [] {} := hbefore.reads rfl fun _ => False.elim
  have whole := front.append (inside.append (hafter.reads rfl fun _ => False.elim))
  have unmarked : (before ++ (root ++ after)).head? ≠ some '\ufeff' := by
    obtain ⟨rest, rfl⟩ := hroot.exists_eq_cons
    cases before with
    | nil => simp
    | cons c cs => simpa using hfirst
  rw [readChars_eq_of_reads whole rfl (dropByteOrderMark_append hmark unmarked),
    List.reverse_reverse]

/-- **Reading does not depend on the layout:** every document that holds the cells of some
descriptions is read, and as these cells in their order. -/
theorem exists_read_of_layout {s : String} (h : Layout ds s.toList) :
    ∃ cells, read s = .ok cells ∧ List.Forall₂ Describes ds cells := by
  refine ⟨ds.map Description.stored, readChars_eq_of_layout h, ?_⟩
  rw [List.forall₂_map_right_iff, List.forall₂_same]
  exact fun d _ => d.describes_stored

theorem exists_read_of_layout_mixed :
    let front := "<?xml v='1'?>".toList ++ ("<!DOCTYPE s>".toList ++ ['\n'])
    let text := elementChars ['s', ':', 'T', 'e', 'x', 't'] []
      ("&lt;".toList ++ ("<!-- - -->".toList ++ (sectionChars ['&', 'l', 't', ';'] ++ []))) []
    let color := elementChars colorName [] ([' ', 'r', 'e', 'd'] ++ []) []
    let first := elementChars (['s', ':'] ++ cellName) " a='1' s:IndexName=\"A&#49;\"".toList
      (text ++ color) [' ']
    let note := elementChars ['n'] [] [] []
    let second := emptyTag cellName " IndexName = 'B2'".toList
    let root := elementChars (['s', ':'] ++ rootName) [] (first ++ (note ++ second)) []
    let cs := ['\ufeff'] ++ (front ++ root)
    let ds : List Description := [
      ⟨['A', '1'], some [.data ['<'], .aside, .verbatim ['&', 'l', 't', ';']],
        some [' ', 'r', 'e', 'd']⟩,
      { name := ['B', '2'] }]
    Layout ds (String.ofList cs).toList ∧
      ∃ cells, read (String.ofList cs) = .ok cells ∧ List.Forall₂ Describes ds cells := by
  intro front text color first note second root cs ds
  have bare : AttributeList [] [] := .nil (by simp)
  have blank : ∀ c ∈ [' '], Markup.isSpace c = true := by simp [Markup.isSpace]
  have hfront : Padding PassedOutside front := by
    have unclosed : ¬['?', '>'] <:+: '?' :: ['x', 'm', 'l', ' ', 'v', '=', '\'', '1', '\''] := by
      decide
    have declaration : Aside "<?xml v='1'?>".toList := .instruction unclosed
    have name : Markup.Bracketed [' ', 's'] := .plain (by decide) (.plain (by decide) .nil)
    have doctype : Aside "<!DOCTYPE s>".toList := .doctype name ⟨'s', by decide, rfl⟩
    have newline : Padding PassedOutside (['\n'] ++ []) := .data (by decide) .nil
    exact .aside declaration (.aside doctype newline)
  have htext :
      FieldElement textName [.data ['<'], .aside, .verbatim ['&', 'l', 't', ';']] text := by
    have named : (['l', 't'], '<') ∈ Markup.namedEntities := by decide
    have entity : Spells ['&', 'l', 't', ';'] ['<'] := .named named .nil
    have data : Segment.Written (.data ['<']) "&lt;".toList := .data entity (by decide)
    have unclosed : ¬['-', '-', '>'] <:+: [' ', '-', ' '] := by decide
    have comment : Aside "<!-- - -->".toList := .comment unclosed
    exact .full (by decide) (.inr ⟨['s'], by decide, rfl⟩) bare
      (.cons data (.cons (.aside comment) (.cons (.verbatim (by decide)) .nil))) (by simp)
  have hcolor : FieldElement colorName [.data [' ', 'r', 'e', 'd']] color := by
    have data : Spells [' ', 'r', 'e', 'd'] [' ', 'r', 'e', 'd'] :=
      Markup.spells_of_not_mem (by decide)
    exact .full (by decide) (.inl ⟨rfl, by decide⟩) bare (.cons (.data data (by decide)) .nil)
      (by simp)
  have hfirst : CellElement ds[0] first := by
    have number : Markup.WritesCode 10 ['4', '9'] '1'.toNat :=
      ⟨by decide, [4, 9], .cons rfl (.cons rfl .nil), rfl⟩
    have value : Spells ['A', '&', '#', '4', '9', ';'] ['A', '1'] :=
      .plain (by decide) (.decimal number (by decide) .nil)
    have last : AttributeList [⟨['s', ':'] ++ indexName, ['A', '&', '#', '4', '9', ';']⟩]
        ([' '] ++ ((['s', ':'] ++ indexName) ++ ([] ++ '=' :: ([] ++ '"' ::
          (['A', '&', '#', '4', '9', ';'] ++ '"' :: []))))) :=
      .cons (by decide) blank (by decide) (by simp) (by simp) (.inr rfl) (by decide) bare
    have attributes : AttributeList
        [⟨['a'], ['1']⟩, ⟨['s', ':'] ++ indexName, ['A', '&', '#', '4', '9', ';']⟩]
        ([' '] ++ (['a'] ++ ([] ++ '=' :: ([] ++ '\'' :: (['1'] ++ '\'' :: _))))) :=
      .cons (by decide) blank (by decide) (by simp) (by simp) (.inl rfl) (by decide) last
    have other : ¬HasLocalName ['a'] indexName := by
      rw [← localName_eq_iff]
      decide
    have names : NamesCell
        [⟨['a'], ['1']⟩, ⟨['s', ':'] ++ indexName, ['A', '&', '#', '4', '9', ';']⟩] ['A', '1'] :=
      { nodup := by decide
        unique := ⟨[⟨['a'], ['1']⟩], _, _, [], rfl, .inr ⟨['s'], by decide, rfl⟩, value,
          by simpa using other⟩ }
    have children : Children (some [.data ['<'], .aside, .verbatim ['&', 'l', 't', ';']])
        (some [' ', 'r', 'e', 'd']) ([] ++ (text ++ ([] ++ (color ++ [])))) :=
      .text .nil htext (.color .nil hcolor (by simp) (.nil .nil))
    have content : text ++ color = [] ++ (text ++ ([] ++ (color ++ []))) := by simp
    exact .full (by decide) (.inr ⟨['s'], by decide, rfl⟩) attributes names (content ▸ children)
      blank
  have hnote : Padding PassedInRoot (note ++ []) :=
    .element (by decide) (by rw [PassedInRoot, ← localName_eq_iff]; decide) bare .nil (by simp) .nil
  have hsecond : CellElement ds[1] second := by
    have attributes : AttributeList [⟨indexName, ['B', '2']⟩]
        ([' '] ++ (indexName ++ ([' '] ++ '=' :: ([' '] ++ '\'' :: (['B', '2'] ++ '\'' :: []))))) :=
      .cons (by decide) blank (by decide) blank blank (.inl rfl) (by decide) bare
    have names : NamesCell [⟨indexName, ['B', '2']⟩] ['B', '2'] :=
      { nodup := by decide
        unique := ⟨[], _, _, [], rfl, .inl ⟨rfl, by decide⟩,
          Markup.spells_of_not_mem (by decide), by simp⟩ }
    exact .empty (by decide) (.inl ⟨rfl, by decide⟩) attributes names
  have hroot : RootElement ds root := by
    have cells : Cells ds ([] ++ (first ++ (note ++ [] ++ (second ++ [])))) :=
      .cons .nil hfirst (.cons hnote hsecond (.nil .nil))
    have content : first ++ (note ++ second) = [] ++ (first ++ (note ++ [] ++ (second ++ []))) := by
      simp
    exact .full (by decide) (.inr ⟨['s'], by decide, rfl⟩) bare (content ▸ cells) (by simp)
  have layout : Layout ds (String.ofList cs).toList := by
    rw [String.toList_ofList]
    have := Layout.intro (.inr rfl) (by decide) hfront hroot .nil
    rwa [List.append_nil] at this
  exact ⟨layout, exists_read_of_layout layout⟩

end Quadrille.Archive
