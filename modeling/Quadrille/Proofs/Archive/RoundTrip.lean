import Quadrille.Proofs.Address
import Quadrille.Proofs.Archive.Layout

/-!
# Stored documents read back

A document that has been written is read as the cells that were written into it, those without text
and color excepted. Nothing is asked of the cells: their texts may hold any characters, and neither
their order nor their places matter.

A written document is one of the documents that hold these cells, in the layout that was chosen for
writing. So nothing has to be said here about scanning and reading, only about the characters that
are written: the parts of a cell are where they may be, texts are written as texts, and the digits
of a color write the color.

## Main results

* `layout_writeChars` — what is written is a document with the cells that are stored
* `read_write` — a written document is read as its cells
* `read_write_keeps` — name, text and color of each cell are as they were, and its place is known
-/

namespace Quadrille

/-- What is stored of a cell. -/
def StoredCell.ofCell (a : Address) (c : Cell) : StoredCell :=
  ⟨a.name, c.text, c.color⟩

/-- Whether a stored cell keeps what is to be known of the cell at some address: its text, its color
and its name, from which the address can be told if it fits two 64-bit words. -/
structure StoredCell.Keeps (entry : Address × Cell) (cell : StoredCell) : Prop where
  name : cell.name = entry.1.name
  text : cell.text = entry.2.text
  color : cell.color = entry.2.color
  address : entry.1.row < Count.largest → entry.1.column < Count.largest →
    Address.ofName? cell.name = some entry.1

theorem StoredCell.keeps_ofCell (entry : Address × Cell) :
    Keeps entry (.ofCell entry.1 entry.2) where
  name := rfl
  text := rfl
  color := rfl
  address hrow hcolumn := Address.ofName?_name hrow hcolumn

namespace Archive

open Markup (Aside AttributeList Spells)

/-- What is stored of some cells: those with text or a color, in order. -/
def stored (entries : List (Address × Cell)) : List StoredCell :=
  (entries.filter fun (_, c) => !c.isDefault).map fun (a, c) => .ofCell a c

/-- The cells that have a text or a color. -/
def significant (entries : List (Address × Cell)) : List (Address × Cell) :=
  entries.filter fun (_, c) => c.text ≠ "" ∨ c.color ≠ noColor

theorem filter_isDefault (entries : List (Address × Cell)) :
    (entries.filter fun (_, c) => !c.isDefault) = significant entries := by
  have same : ∀ c : Cell, (!c.isDefault) = decide (c.text ≠ "" ∨ c.color ≠ noColor) := by
    intro c
    by_cases htext : c.text = "" <;> by_cases hcolor : c.color = noColor <;>
      simp [Cell.isDefault, htext, hcolor]
  simp only [significant, same]

theorem stored_eq_map (entries : List (Address × Cell)) :
    stored entries = (significant entries).map fun (a, c) => .ofCell a c := by
  rw [stored, filter_isDefault]

theorem forall₂_keeps (entries : List (Address × Cell)) :
    List.Forall₂ StoredCell.Keeps entries (entries.map fun (a, c) => .ofCell a c) := by
  rw [List.forall₂_map_right_iff, List.forall₂_same]
  exact fun entry _ => StoredCell.keeps_ofCell entry

/-! ### Cells as they are written -/

/-- A cell as it is described by what is written. -/
def Description.ofCell (a : Address) (c : Cell) : Description :=
  ⟨a.nameChars, some [.data c.text.toList], some (colorChars c.color)⟩

/-- The digits of a color write the color. -/
theorem colors_colorChars (color : Color) : Colors (colorChars color) color := by
  have value := Digits.value_ofNat_count color.toNat
  exact .inl ⟨[], [], _, [], by simp, by simp, .inl rfl, Digits.ofNat_count_ne_nil _,
    by simp [colorChars], value, Nat.le_of_lt_succ color.toNat_lt⟩

theorem Description.stored_ofCell (a : Address) (c : Cell) :
    (ofCell a c).stored = .ofCell a c := by
  simp only [stored, ofCell, StoredCell.ofCell, Option.elim_some, textOf, List.flatMap_cons,
    List.flatMap_nil, Segment.text, List.append_nil, String.ofList_toList,
    colors_iff.mp (colors_colorChars c.color)]
  rfl

theorem Description.map_stored_ofCell (entries : List (Address × Cell)) :
    (entries.map fun (a, c) => ofCell a c).map stored =
      entries.map fun (a, c) => StoredCell.ofCell a c := by
  rw [List.map_map]
  exact List.map_congr_left fun (a, c) _ => stored_ofCell a c

theorem not_mem_nameChars {a : Address} {c : Char} (hc : c.isAlphanum = false) :
    c ∉ a.nameChars := by
  intro h
  simp [Address.isAlphanum_of_mem_nameChars h] at hc

/-! ### The layout that is written -/

theorem attributeList_nil : AttributeList [] [] :=
  .nil (by simp)

theorem padding_newline (passed : List Char → Prop) (depth : Nat) :
    Padding passed (newline depth) := by
  have h : '<' ∉ newline depth := by simp [newline]
  have padding : Padding passed (newline depth ++ []) := .data h .nil
  rwa [List.append_nil] at padding

theorem textElement_eq (name text : List Char) :
    textElement name text = elementChars name [] (Markup.escape text) [] := by
  simp [textElement, startTag, endTag, elementChars, Markup.openingTag, Markup.closingTag]

theorem fieldElement_textElement (own : List Char) (h : Markup.IsName own) (hcolon : ':' ∉ own)
    (text : List Char) : FieldElement own [.data text] (textElement own text) := by
  have written : Contents [.data text] (Markup.escape text ++ []) :=
    .cons (.data (Markup.spells_escape text) (Markup.not_mem_escape text)) .nil
  rw [List.append_nil] at written
  rw [textElement_eq]
  exact .full h (.inl ⟨rfl, hcolon⟩) attributeList_nil written (by simp)

/-- A cell is written behind a line break, with its color before its text. -/
theorem cellElement_eq (a : Address) (c : Cell) :
    cellElement a c = newline 1 ++ elementChars cellName
      ([' '] ++ (indexName ++ ([] ++ '=' :: ([] ++ '"' :: (a.nameChars ++ '"' :: [])))))
      (newline 2 ++ (textElement colorName (colorChars c.color) ++
        (newline 2 ++ (textElement textName c.text.toList ++ newline 1)))) [] := by
  simp [cellElement, endTag, elementChars, Markup.openingTag, Markup.closingTag]

/-- **The element of a cell** that is written is that of the cell. -/
theorem exists_cellElement (a : Address) (c : Cell) :
    ∃ element, CellElement (.ofCell a c) element ∧ cellElement a c = newline 1 ++ element := by
  refine ⟨_, ?_, cellElement_eq a c⟩
  have attributes : AttributeList [⟨indexName, a.nameChars⟩]
      ([' '] ++ (indexName ++ ([] ++ '=' :: ([] ++ '"' :: (a.nameChars ++ '"' :: []))))) :=
    .cons (by simp) (by simp [Markup.isSpace]) (by decide) (by simp) (by simp) (.inr rfl)
      (not_mem_nameChars (by decide)) attributeList_nil
  have names : NamesCell [⟨indexName, a.nameChars⟩] a.nameChars :=
    { nodup := by simp
      unique := ⟨[], indexName, a.nameChars, [], rfl, .inl ⟨rfl, by decide⟩,
        Markup.spells_of_not_mem (not_mem_nameChars (by decide)), by simp⟩ }
  have color := fieldElement_textElement colorName (by decide) (by decide) (colorChars c.color)
  have text := fieldElement_textElement textName (by decide) (by decide) c.text.toList
  have children : Children (some [.data c.text.toList]) (some (textOf [.data (colorChars c.color)]))
      _ :=
    .color (padding_newline _ 2) color (by simp)
      (.text (padding_newline _ 2) text (.nil (padding_newline _ 1)))
  rw [show textOf [.data (colorChars c.color)] = colorChars c.color from List.append_nil _]
    at children
  exact .full (by decide) (.inl ⟨rfl, by decide⟩) attributes names children (by simp)

theorem cells_flatMap (entries : List (Address × Cell)) {cs : List Char}
    (hcs : Padding PassedInRoot cs) :
    Cells (entries.map fun (a, c) => .ofCell a c)
      (entries.flatMap (fun (a, c) => cellElement a c) ++ cs) := by
  induction entries with
  | nil => exact .nil hcs
  | cons entry entries ih =>
    obtain ⟨a, c⟩ := entry
    obtain ⟨element, helement, heq⟩ := exists_cellElement a c
    have chars : (((a, c) :: entries).flatMap fun (a, c) => cellElement a c) ++ cs =
        newline 1 ++ (element ++ ((entries.flatMap fun (a, c) => cellElement a c) ++ cs)) := by
      simp [heq]
    rw [chars]
    exact .cons (padding_newline _ 1) helement ih

/-- There is a declaration at the front of what is written. -/
theorem exists_heading :
    ∃ declaration, Aside declaration ∧
      heading = declaration ++ (newline 0 ++ startTag rootName) := by
  have unclosed : ¬['?', '>'] <:+: '?' :: "xml version=\"1.0\" encoding=\"utf-8\"".toList := by
    intro h
    have : '>' ∈ '?' :: "xml version=\"1.0\" encoding=\"utf-8\"".toList := h.subset (by simp)
    simp at this
  have declaration : Aside "<?xml version=\"1.0\" encoding=\"utf-8\"?>".toList :=
    .instruction unclosed
  exact ⟨_, declaration, List.append_assoc ..⟩

/-- **What is written** is a document with the cells that have a text or a color. -/
theorem layout_writeChars (entries : List (Address × Cell)) :
    Layout ((significant entries).map fun (a, c) => .ofCell a c) (writeChars entries) := by
  obtain ⟨declaration, haside, hheading⟩ := exists_heading
  have front := Padding.aside haside (padding_newline PassedOutside 0)
  have first : (declaration ++ newline 0).head? ≠ some '\ufeff' := by
    obtain ⟨rest, rfl⟩ := haside.exists_eq_cons
    simp
  have root : RootElement _ (elementChars rootName [] _ []) :=
    .full (by decide) (.inl ⟨rfl, by decide⟩) attributeList_nil
      (cells_flatMap (significant entries) (padding_newline _ 0)) (by simp)
  have layout := Layout.intro (.inl rfl) first front root .nil
  simpa [writeChars, filter_isDefault, hheading, startTag, endTag, elementChars,
    Markup.openingTag, Markup.closingTag] using layout

/-! ### Reading what has been written -/

/-- **A written document** is read as the cells that are stored in it. -/
theorem read_write (entries : List (Address × Cell)) :
    read (write entries) = .ok (stored entries) := by
  rw [read, write, String.toList_ofList, readChars_eq_of_layout (layout_writeChars entries),
    Description.map_stored_ofCell, stored_eq_map]

/-- **Writing loses nothing:** a written document is read, and as the cells that have a text or a
color, in their order and with everything that is to be known of them. -/
theorem read_write_keeps (entries : List (Address × Cell)) :
    ∃ cells, read (write entries) = .ok cells ∧
      List.Forall₂ StoredCell.Keeps (significant entries) cells := by
  refine ⟨stored entries, read_write entries, ?_⟩
  rw [stored_eq_map]
  exact forall₂_keeps _

end Archive

end Quadrille
