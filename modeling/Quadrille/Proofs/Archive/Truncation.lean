import Quadrille.Proofs.Archive.RoundTrip
import Quadrille.Proofs.Traversal

/-!
# Documents that are cut off

A document that was not stored to its end may be cut off anywhere, in the middle of a text or of an
entity, and since elements may be open at the end, it is not always refused. But what the reader
has come to is never taken back: events are only added, and so are the cells that are done, at the
end of their elements and not before. Whatever is read of a part of a document is what the whole
document begins with.

Only the last run of character data has to be looked at separately, because at the end of a part it
is an event, while in the whole document it may go on. It adds no cell, and at most it is refused.

## Main results

* `Scanner.suffix_run`, `Reader.done_foldlM` — events and cells are only added
* `isPrefix_of_readChars` — a part of a document is read as some of the first cells of the document
* `CellElement.exists_breaksOff` — up to its last character, the element of a cell adds no cell
* `read_cutOff` — a written document that is cut off
-/

namespace Quadrille

namespace Markup

namespace Scanner

variable (s : Scanner) (body : List Char)

theorem suffix_emit (e : Event) : s.events <:+ (s.emit e).events :=
  List.suffix_cons e s.events

theorem suffix_closeElement (name : List Char) : s.events <:+ (s.closeElement name).events := by
  unfold closeElement
  split
  · exact List.suffix_rfl
  · split
    · exact suffix_emit _ _
    · exact List.suffix_rfl

theorem suffix_endTag : s.events <:+ (s.endTag body).events := by
  unfold endTag
  split
  · exact suffix_closeElement ..
  · exact suffix_emit ..
  · exact suffix_emit ..

theorem suffix_endComment : s.events <:+ (s.endComment body).events := by
  unfold endComment
  split
  · exact suffix_emit ..
  · exact List.suffix_rfl

theorem suffix_endSection : s.events <:+ (s.endSection body).events := by
  unfold endSection
  split
  · exact suffix_emit ..
  · exact List.suffix_rfl

theorem suffix_endDoctype : s.events <:+ (s.endDoctype body).events := by
  unfold endDoctype
  split
  · split
    · exact List.suffix_rfl
    · exact suffix_emit ..
  · exact List.suffix_rfl

theorem suffix_stepTag (quote : Option Char) (c : Char) :
    s.events <:+ (s.stepTag quote body c).events := by
  unfold stepTag
  split
  · exact List.suffix_rfl
  · split
    · exact suffix_endTag ..
    · exact List.suffix_rfl

/-- Whatever is read, at most events are added. -/
theorem suffix_step (c : Char) : s.events <:+ (s.step c).events := by
  unfold step
  split
  case h_1 run =>
    split
    · split
      · exact List.suffix_rfl
      · exact suffix_emit ..
    · exact List.suffix_rfl
  case h_2 =>
    split
    · exact List.suffix_rfl
    · split
      · exact List.suffix_rfl
      · exact suffix_stepTag ..
  case h_3 => exact suffix_stepTag ..
  case h_4 => split <;> [skip; split <;> [skip; split]] <;> exact List.suffix_rfl
  case h_5 =>
    split
    · exact suffix_endComment ..
    · exact List.suffix_rfl
  case h_6 =>
    split
    · exact suffix_endSection ..
    · exact List.suffix_rfl
  case h_7 =>
    split
    · split
      · exact suffix_endDoctype ..
      · exact List.suffix_rfl
    · exact List.suffix_rfl
  case h_8 =>
    split
    · split
      · exact List.suffix_rfl
      · exact suffix_emit ..
    · exact List.suffix_rfl
  case h_9 => exact List.suffix_rfl

/-- **Events are only added.** -/
theorem suffix_run (cs : List Char) : s.events <:+ (s.run cs).events := by
  induction cs generalizing s with
  | nil => exact List.suffix_rfl
  | cons c cs ih => exact (s.suffix_step c).trans (ih (s.step c))

/-- At the end of a text there is at most one more event, of character data. -/
theorem events_finish :
    s.finish.events = s.events ∨ ∃ raw, s.finish.events = .text raw :: s.events := by
  unfold finish
  split
  · split
    · exact .inl rfl
    · exact .inr ⟨_, rfl⟩
  · exact .inl rfl
  · exact .inl rfl

end Scanner

theorem exists_dropByteOrderMark_append (front rest : List Char) :
    ∃ rest', dropByteOrderMark (front ++ rest) = dropByteOrderMark front ++ rest' := by
  cases front with
  | nil => exact ⟨dropByteOrderMark rest, rfl⟩
  | cons c cs =>
    refine ⟨rest, ?_⟩
    by_cases h : c = '\ufeff'
    · subst h
      rfl
    · unfold dropByteOrderMark
      split
      · simp_all
      · split <;> simp_all

end Markup

namespace Archive

open Markup (Event Scanner)

namespace Reader

variable {r r' : Reader} {tag : Markup.Tag}

theorem done_begin (h : r.begin tag = .ok r') : r'.done = r.done := by
  unfold begin at h
  split at h
  · rw [← Except.ok.inj h]
  · split at h
    · rw [← Except.ok.inj h]
    · simp at h

theorem done_add (s : String) : (r.add s).done = r.done := by
  unfold add
  split <;> rfl

theorem done_text {raw : List Char} (h : r.text raw = .ok r') : r'.done = r.done := by
  unfold text at h
  split at h
  · obtain ⟨s, -, rfl⟩ := map_eq_ok_iff.mp h
    exact done_add s
  · rw [← Except.ok.inj h]

theorem done_start (h : r.start tag = .ok r') : r'.done = r.done := by
  obtain ⟨begun, hbegun, h⟩ := bind_eq_ok_iff.mp h
  rw [← done_begin hbegun]
  dsimp only at h
  split at h
  · obtain ⟨cell, -, h⟩ := bind_eq_ok_iff.mp h
    rw [← Except.ok.inj h]
  · split at h
    · rw [← Except.ok.inj h]
    · split at h <;> rw [← Except.ok.inj h]

theorem done_empty (h : r.empty tag = .ok r') : r.done <:+ r'.done := by
  obtain ⟨begun, hbegun, h⟩ := bind_eq_ok_iff.mp h
  rw [← done_begin hbegun]
  split at h
  · obtain ⟨cell, -, h⟩ := bind_eq_ok_iff.mp h
    rw [← Except.ok.inj h]
    exact List.suffix_cons ..
  · obtain rfl := Except.ok.inj h
    exact List.suffix_rfl

theorem done_finish (name : List Char) : r.done <:+ (r.finish name).done := by
  unfold finish
  dsimp only
  split
  · split
    · exact List.suffix_cons ..
    · exact List.suffix_rfl
  · split
    · exact List.suffix_rfl
    · split <;> exact List.suffix_rfl

theorem done_step {e : Event} (h : r.step e = .ok r') : r.done <:+ r'.done := by
  have unchanged : r'.done = r.done → r.done <:+ r'.done := fun h => h ▸ List.suffix_rfl
  cases e with
  | start tag => exact unchanged (done_start h)
  | empty tag => exact done_empty h
  | finish name =>
    rw [← Except.ok.inj h]
    exact done_finish name
  | text raw => exact unchanged (done_text h)
  | «section» raw =>
    refine unchanged ?_
    rw [← Except.ok.inj h, rawText]
    split
    · exact done_add _
    · rfl
  | aside => exact unchanged (by rw [← Except.ok.inj h])

/-- **Cells are only added.** -/
theorem done_foldlM {events : List Event} (h : events.foldlM step r = .ok r') :
    r.done <:+ r'.done := by
  induction events generalizing r with
  | nil =>
    obtain rfl := Except.ok.inj h
    exact List.suffix_rfl
  | cons e events ih =>
    obtain ⟨next, hnext, h⟩ := bind_eq_ok_iff.mp h
    exact (done_step hnext).trans (ih h)

end Reader

/-! ### Parts of documents -/

/-- Whether the events that the scan of a text has found before its end bring the reader to some
state. -/
def Settles (cs : List Char) (r : Reader) : Prop :=
  (({} : Scanner).run (Markup.dropByteOrderMark cs)).events.reverse.foldlM Reader.step {} = .ok r

theorem exists_settles_of_readChars {cs : List Char} {cells : List StoredCell}
    (h : readChars cs = .ok cells) : ∃ r, Settles cs r ∧ cells = r.done.reverse := by
  obtain ⟨whole, hwhole, h⟩ := bind_eq_ok_iff.mp h
  have hcells : cells = whole.done.reverse := by
    split at h
    · simp at h
    · split at h
      · exact (Except.ok.inj h).symm
      · simp at h
  change (({} : Scanner).run (Markup.dropByteOrderMark cs)).finish.events.reverse.foldlM _ _ = _
    at hwhole
  obtain heq | ⟨raw, heq⟩ := (({} : Scanner).run (Markup.dropByteOrderMark cs)).events_finish
  · rw [heq] at hwhole
    exact ⟨whole, hwhole, hcells⟩
  · rw [heq, List.reverse_cons, List.foldlM_append] at hwhole
    obtain ⟨r, hr, hlast⟩ := bind_eq_ok_iff.mp hwhole
    obtain ⟨last, htext, hend⟩ := bind_eq_ok_iff.mp hlast
    obtain rfl := Except.ok.inj hend
    exact ⟨r, hr, by rw [hcells, Reader.done_text htext]⟩

/-- What is settled of a part of a text comes before what is settled of the text. -/
theorem Settles.exists_of_isPrefix {cs part : List Char} {whole : Reader} (h : Settles cs whole)
    (hpart : part <+: cs) : ∃ r, Settles part r ∧ r.done <:+ whole.done := by
  obtain ⟨rest, rfl⟩ := hpart
  obtain ⟨rest', hrest⟩ := Markup.exists_dropByteOrderMark_append part rest
  rw [Settles, hrest, Scanner.run_append] at h
  obtain ⟨later, hlater⟩ :=
    (({} : Scanner).run (Markup.dropByteOrderMark part)).suffix_run rest'
  rw [← hlater, List.reverse_append, List.foldlM_append] at h
  obtain ⟨r, hr, hwhole⟩ := bind_eq_ok_iff.mp h
  exact ⟨r, hr, Reader.done_foldlM hwhole⟩

theorem Settles.unique {cs : List Char} {r r' : Reader} (h : Settles cs r) (h' : Settles cs r') :
    r = r' :=
  Except.ok.inj (h.symm.trans h')

/-- A part of a text is read, if at all, as some of the first cells that are settled of the text. -/
theorem Settles.isPrefix_of_readChars {cs part : List Char} {whole : Reader}
    {cells : List StoredCell} (h : Settles cs whole) (hpart : part <+: cs)
    (hcells : readChars part = .ok cells) : cells <+: whole.done.reverse := by
  obtain ⟨r, hr, hdone⟩ := h.exists_of_isPrefix hpart
  obtain ⟨r', hr', rfl⟩ := exists_settles_of_readChars hcells
  rw [hr'.unique hr, List.reverse_prefix]
  exact hdone

/-- **A part of a document** that is read at all is read as some of the first cells. -/
theorem isPrefix_of_readChars {cs part : List Char} {cells some : List StoredCell}
    (h : readChars cs = .ok cells) (hpart : part <+: cs) (hsome : readChars part = .ok some) :
    some <+: cells := by
  obtain ⟨whole, hwhole, rfl⟩ := exists_settles_of_readChars h
  exact hwhole.isPrefix_of_readChars hpart hsome

/-! ### Cells that are cut off -/

/-- Whether some characters, behind a place in character data where the reader is in one state,
settle that it comes to another, and no more than that. -/
def BreaksOff (cs : List Char) (nesting : List (List Char)) (r r' : Reader) : Prop :=
  ∀ s, Reached s nesting r → (s.run cs).events.reverse.foldlM Reader.step {} = .ok r'

variable {nesting nesting' : List (List Char)} {r r₁ r' : Reader} {cs ds : List Char}
  {d : Description} {register : String} {done : List StoredCell}

theorem Reads.append_breaksOff (h : Reads cs nesting r nesting' r₁)
    (h' : BreaksOff ds nesting' r₁ r') : BreaksOff (cs ++ ds) nesting r r' := by
  intro s hs
  rw [Scanner.run_append]
  exact h' _ (h s hs)

/-- A tag without its last angle bracket settles what is before the tag. -/
theorem breaksOff_tag (hcs : Markup.TagBody cs) (hne : cs ≠ [])
    (hfirst : ∀ c ∈ cs.head?, c ≠ '!' ∧ c ≠ '?') : BreaksOff ('<' :: cs) nesting r r := by
  intro s hs
  rw [hs.run_opened, Scanner.run_unclosedTag hcs hne hfirst]
  exact hs.read

/-- Without its last character, the element of a cell adds no cell to those that are done. -/
theorem CellElement.exists_breaksOff (h : CellElement d cs) (nesting : List (List Char))
    (register : String) (done : List StoredCell) :
    ∃ front r, cs = front ++ ['>'] ∧ r.done = done ∧
      BreaksOff front nesting ⟨true, none, none, register, done⟩ r := by
  cases h with
  | @empty name own cs attributes hname hown hattributes hnames =>
    have slash : Markup.TagBody ['/'] := .plain (by decide) .nil
    have body := hname.tagBody.append (hattributes.tagBody.append slash)
    obtain ⟨c, own, rfl⟩ := List.exists_cons_of_ne_nil hname.1
    have first : c ≠ '!' ∧ c ≠ '?' := by
      constructor <;> rintro rfl <;> exact hname.not_mem (by decide) List.mem_cons_self
    exact ⟨'<' :: (c :: own ++ (cs ++ ['/'])), _, by simp [Markup.emptyTag], rfl,
      breaksOff_tag body (by simp) (by simpa using first)⟩
  | @full d own cs content blanks attributes hname hown hattributes hnames hcontent hblanks =>
    obtain ⟨register', inside⟩ := hcontent.reads { name := String.ofList d.name } (fun _ => rfl)
      (own :: nesting) register done
    have unclosed :=
      (reads_openingTag hname hattributes (start_cell hown hattributes hnames)).append inside
    have body : Markup.TagBody ('/' :: (own ++ blanks)) :=
      .plain (by decide) (hname.tagBody.append (Markup.tagBody_of_isSpace hblanks))
    refine ⟨Markup.openingTag own cs ++ content ++ '<' :: '/' :: (own ++ blanks), _, ?_, rfl,
      unclosed.append_breaksOff (breaksOff_tag body (by simp) (by simp))⟩
    simp [elementChars, Markup.closingTag]

/-! ### Written documents -/

/-- What is stored of a written document that is cut off behind so many characters. -/
def cutOff (entries : List (Address × Cell)) (n : Nat) : String :=
  String.ofList ((writeChars entries).take n)

/-- The characters of a written document up to the end of so many of its cells. -/
def charsThrough (entries : List (Address × Cell)) (k : Nat) : List Char :=
  heading ++ ((significant entries).take k).flatMap fun (a, c) => cellElement a c

/-! #### Characters -/

theorem charsThrough_eq (entries : List (Address × Cell)) {k : Nat}
    (hk : k < (significant entries).length) :
    charsThrough entries (k + 1) = charsThrough entries k ++
      cellElement ((significant entries)[k]).1 ((significant entries)[k]).2 := by
  rw [charsThrough, charsThrough, List.take_succ_eq_append_getElem hk, List.flatMap_append,
    List.flatMap_singleton, List.append_assoc]

theorem charsThrough_isPrefix (entries : List (Address × Cell)) (k : Nat) :
    charsThrough entries k <+: writeChars entries := by
  have cells : (((significant entries).take k).flatMap fun (a, c) => cellElement a c) <+:
      ((significant entries).take k ++ (significant entries).drop k).flatMap
        fun (a, c) => cellElement a c := by
    rw [List.flatMap_append]
    exact List.prefix_append ..
  rw [List.take_append_drop] at cells
  rw [charsThrough, writeChars, filter_isDefault, List.append_assoc, List.append_assoc,
    List.prefix_append_right_inj]
  exact cells.trans (List.prefix_append _ _)

theorem take_length_charsThrough (entries : List (Address × Cell)) (k : Nat) :
    (writeChars entries).take (charsThrough entries k).length = charsThrough entries k :=
  (List.prefix_iff_eq_take.mp (charsThrough_isPrefix entries k)).symm

theorem dropByteOrderMark_heading_append (cs : List Char) :
    Markup.dropByteOrderMark (heading ++ cs) = heading ++ cs := by
  obtain ⟨declaration, haside, hheading⟩ := exists_heading
  obtain ⟨rest, rfl⟩ := haside.exists_eq_cons
  rw [hheading]
  exact dropByteOrderMark_append (.inl rfl) (by simp)

/-! #### Reading them -/

theorem reads_heading : Reads heading [] {} [rootName] ⟨true, none, none, "", []⟩ := by
  obtain ⟨declaration, haside, hheading⟩ := exists_heading
  have opened : Reads (startTag rootName) [] {} [rootName] ⟨true, none, none, "", []⟩ :=
    reads_openingTag (by decide) attributeList_nil rfl
  rw [hheading]
  exact (reads_aside haside).append
    ((reads_data_of_closed (by simp [newline]) (by simp [Reader.Listening])).append opened)

/-- The elements of some cells behind the heading, and blanks behind them, make these cells done. -/
theorem reads_front (entries : List (Address × Cell)) (hcs : Padding PassedInRoot cs) :
    ∃ register, Reads (heading ++ (entries.flatMap (fun (a, c) => cellElement a c) ++ cs)) [] {}
      [rootName] ⟨true, none, none, register, (entries.map fun (a, c) => .ofCell a c).reverse⟩ := by
  obtain ⟨register, inside⟩ := (cells_flatMap entries hcs).reads [rootName] "" []
  rw [List.append_nil, Description.map_stored_ofCell] at inside
  exact ⟨register, reads_heading.append inside⟩

/-- **Behind the end of a cell** that cell can be read, and those before it. -/
theorem readChars_charsThrough (entries : List (Address × Cell)) (k : Nat) :
    readChars (charsThrough entries k) =
      .ok (((significant entries).take k).map fun (a, c) => .ofCell a c) := by
  obtain ⟨register, front⟩ := reads_front ((significant entries).take k) .nil
  rw [List.append_nil] at front
  have read := readChars_eq_of_reads front rfl (dropByteOrderMark_heading_append _)
  rwa [List.reverse_reverse] at read

/-- **One character before the end of a cell** only the cells before it are settled. -/
theorem exists_settles_charsThrough (entries : List (Address × Cell)) {k : Nat}
    (hk : k < (significant entries).length) :
    ∃ front r, charsThrough entries (k + 1) = front ++ ['>'] ∧ Settles front r ∧
      r.done.reverse = ((significant entries).take k).map fun (a, c) => .ofCell a c := by
  obtain ⟨register, front⟩ := reads_front ((significant entries).take k) (padding_newline _ 1)
  obtain ⟨element, helement, heq⟩ :=
    exists_cellElement ((significant entries)[k]).1 ((significant entries)[k]).2
  obtain ⟨rest, r, rfl, hdone, hrest⟩ := helement.exists_breaksOff [rootName] register
    (((significant entries).take k).map fun (a, c) => .ofCell a c).reverse
  refine ⟨charsThrough entries k ++ (newline 1 ++ rest), r, ?_, ?_, ?_⟩
  · rw [charsThrough_eq entries hk, heq]
    simp
  · have settled := front.append_breaksOff hrest _ reached_start
    rw [Settles, charsThrough, List.append_assoc, dropByteOrderMark_heading_append]
    simpa using settled
  · rw [hdone, List.reverse_reverse]

variable {entries : List (Address × Cell)} {n : Nat} {cells : List StoredCell}

/-- What is read of a part of a written document is some of the first cells. -/
theorem keeps_of_readChars_take (h : readChars ((writeChars entries).take n) = .ok cells) :
    List.Forall₂ StoredCell.Keeps ((significant entries).take cells.length) cells := by
  have whole := read_write entries
  rw [read, write, String.toList_ofList, stored_eq_map] at whole
  have first := isPrefix_of_readChars whole (List.take_prefix n _) h
  rw [List.prefix_iff_eq_take, ← List.map_take] at first
  have keeps := forall₂_keeps ((significant entries).take cells.length)
  rwa [← first] at keeps

/-- A cell is read of a part of a written document if and only if its element is complete. -/
theorem lt_length_iff_of_readChars_take (h : readChars ((writeChars entries).take n) = .ok cells)
    {i : Nat} (hi : i < (significant entries).length) :
    i < cells.length ↔ (charsThrough entries (i + 1)).length ≤ n := by
  constructor
  · intro hlt
    by_contra hcut
    obtain ⟨front, r, hfront, hsettles, hdone⟩ := exists_settles_charsThrough entries hi
    have part : (writeChars entries).take n <+: front := by
      have within : front <+: writeChars entries :=
        (hfront ▸ List.prefix_append front ['>']).trans (charsThrough_isPrefix entries _)
      refine List.prefix_of_prefix_length_le (List.take_prefix n _) within ?_
      rw [hfront, List.length_append, List.length_singleton] at hcut
      rw [List.length_take]
      omega
    have few := (hsettles.isPrefix_of_readChars part h).length_le
    rw [hdone, List.length_map, List.length_take] at few
    omega
  · intro hle
    have part : charsThrough entries (i + 1) <+: (writeChars entries).take n := by
      refine List.prefix_of_prefix_length_le (charsThrough_isPrefix entries _)
        (List.take_prefix n _) ?_
      rw [List.length_take]
      exact Nat.le_min.mpr ⟨hle, (charsThrough_isPrefix entries _).length_le⟩
    have many := (isPrefix_of_readChars h part (readChars_charsThrough entries _)).length_le
    rw [List.length_map, List.length_take] at many
    omega

/-- **A written document that is cut off** is refused, or it is read as some of the first of the
cells that have a text or a color, with everything that is to be known of them. These are the cells
whose elements are complete. Wherever the element of a cell ends, the document can be read. -/
theorem read_cutOff (entries : List (Address × Cell)) :
    (∀ n, (∃ e, read (cutOff entries n) = .error e) ∨
      ∃ k cells, read (cutOff entries n) = .ok cells ∧
        List.Forall₂ StoredCell.Keeps ((significant entries).take k) cells ∧
        ∀ i < (significant entries).length, i < k ↔ (charsThrough entries (i + 1)).length ≤ n) ∧
    ∀ k, ∃ cells, read (cutOff entries (charsThrough entries k).length) = .ok cells ∧
      List.Forall₂ StoredCell.Keeps ((significant entries).take k) cells := by
  constructor
  · intro n
    rw [read, cutOff, String.toList_ofList]
    cases hread : readChars ((writeChars entries).take n) with
    | error e => exact .inl ⟨e, rfl⟩
    | ok cells =>
      exact .inr ⟨cells.length, cells, rfl, keeps_of_readChars_take hread,
        fun i hi => lt_length_iff_of_readChars_take hread hi⟩
  · intro k
    refine ⟨_, ?_, forall₂_keeps ((significant entries).take k)⟩
    rw [read, cutOff, String.toList_ofList, take_length_charsThrough]
    exact readChars_charsThrough entries k

end Archive

end Quadrille
