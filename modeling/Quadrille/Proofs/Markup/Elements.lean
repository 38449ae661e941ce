import Mathlib.Data.List.Nodup
import Quadrille.Markup.Attribute
import Quadrille.Proofs.Text.Runs

/-!
# Elements as the scan sees them

What the scanner of markup makes of the tags of elements, however they are written: names may have
prefixes, attributes may be spaced and quoted in different ways, and there may be blanks at the end
of a tag. The attributes of a start tag are read by a second scanner, and only when somebody asks.

A tag may hold anything but a closing angle bracket, and even that in quotes (`TagBody`). Each lemma
on the scanner starts just behind an opening angle bracket and ends behind the closing one, where an
event has been added and the scanner is back in character data.

## Main definitions

* `IsName`, `HasLocalName` — the names of elements and attributes, and what they say without prefix
* `AttributeList` — how attributes are written

## Main results

* `localName_eq_iff` — what is left of a name without its prefix
* `Scanner.run_openingTag`, `Scanner.run_emptyTag`, `Scanner.run_closingTag` — the three tags
* `AttributeList.readAttributes_eq` — attributes are read as they were written
-/

namespace Quadrille

namespace Markup

/-! ### Names -/

/-- Whether a character may stand in the name of an element or of an attribute. Far more characters
may than names are usually made of. -/
def isNameChar (c : Char) : Bool :=
  !isSpace c && !(['<', '>', '/', '=', '\'', '"', '!', '?', '&'].contains c)

/-- Whether a text may be the name of an element or of an attribute. -/
def IsName (name : List Char) : Prop :=
  name ≠ [] ∧ ∀ c ∈ name, isNameChar c = true

instance (name : List Char) : Decidable (IsName name) :=
  decidable_of_iff (name ≠ [] ∧ name.all isNameChar = true) (by simp [IsName])

/-- Whether a name consists of a local name, either alone or behind a prefix and a colon. -/
def HasLocalName (name own : List Char) : Prop :=
  (name = own ∧ ':' ∉ name) ∨ ∃ space, ':' ∉ space ∧ name = space ++ ':' :: own

theorem localName_of_not_mem {name : List Char} (h : ':' ∉ name) : localName name = name := by
  have all : name.dropWhile (· != ':') = [] := by
    refine List.dropWhile_eq_nil_iff.mpr fun c hc => ?_
    simpa using ne_of_mem_of_not_mem hc h
  rw [localName, all]

theorem localName_append {space own : List Char} (h : ':' ∉ space) :
    localName (space ++ ':' :: own) = own := by
  have inSpace : ∀ c ∈ space, (c != ':') = true := fun c hc => by
    simpa using ne_of_mem_of_not_mem hc h
  rw [localName, List.dropWhile_append_of_pos inSpace]
  simp

/-- **The local name** is the name without its prefix. -/
theorem localName_eq_iff {name own : List Char} :
    localName name = own ↔ HasLocalName name own := by
  constructor
  · rintro rfl
    by_cases h : ':' ∈ name
    · obtain ⟨space, own, rfl, hspace⟩ := List.eq_append_cons_of_mem h
      exact .inr ⟨space, hspace, by rw [localName_append hspace]⟩
    · exact .inl ⟨(localName_of_not_mem h).symm, h⟩
  · rintro (⟨rfl, h⟩ | ⟨space, hspace, rfl⟩)
    · exact localName_of_not_mem h
    · exact localName_append hspace

/-! ### What a tag may hold -/

/-- What may stand between the angle brackets of a tag: quotes come in pairs, and what is outside
them is no closing angle bracket. -/
inductive TagBody : List Char → Prop where
  | nil : TagBody []
  | plain {c : Char} {cs : List Char} (hc : c ≠ '>' ∧ c ≠ '\'' ∧ c ≠ '"') (rest : TagBody cs) :
      TagBody (c :: cs)
  | quoted {q : Char} {value cs : List Char} (hq : q = '\'' ∨ q = '"') (hvalue : q ∉ value)
      (rest : TagBody cs) : TagBody (q :: (value ++ q :: cs))

theorem TagBody.append {cs ds : List Char} (hcs : TagBody cs) (hds : TagBody ds) :
    TagBody (cs ++ ds) := by
  induction hcs with
  | nil => exact hds
  | plain hc _ ih => exact .plain hc ih
  | quoted hq hvalue _ ih => simpa using TagBody.quoted hq hvalue ih

theorem tagBody_of_forall {cs : List Char} (h : ∀ c ∈ cs, c ≠ '>' ∧ c ≠ '\'' ∧ c ≠ '"') :
    TagBody cs := by
  induction cs with
  | nil => exact .nil
  | cons c cs ih =>
    obtain ⟨hc, hcs⟩ := List.forall_mem_cons.mp h
    exact .plain hc (ih hcs)

theorem tagBody_of_isSpace {blanks : List Char} (h : ∀ c ∈ blanks, isSpace c = true) :
    TagBody blanks := by
  refine tagBody_of_forall fun c hc => ?_
  refine ⟨?_, ?_, ?_⟩ <;> rintro rfl <;> exact absurd (h _ hc) (by decide)

namespace IsName

variable {name : List Char}

theorem not_mem (h : IsName name) {c : Char} (hc : isNameChar c = false) : c ∉ name := by
  intro hmem
  simp [h.2 c hmem] at hc

theorem not_isSpace (h : IsName name) : ∀ c ∈ name, isSpace c = false := by
  intro c hc
  have := h.2 c hc
  simp only [isNameChar, Bool.and_eq_true, Bool.not_eq_true'] at this
  exact this.1

theorem tagBody (h : IsName name) : TagBody name := by
  refine tagBody_of_forall fun c hc => ?_
  refine ⟨?_, ?_, ?_⟩ <;> exact ne_of_mem_of_not_mem hc (h.not_mem (by decide))

/-- Blanks behind the name in an end tag do not belong to it. -/
theorem endName_append (h : IsName name) {blanks : List Char}
    (hblanks : ∀ c ∈ blanks, isSpace c = true) : Scanner.endName (name ++ blanks) = name := by
  obtain ⟨c, cs, rfl⟩ := List.exists_cons_of_ne_nil h.1
  have begins : isSpace c = false := h.not_isSpace c List.mem_cons_self
  have ends : (c :: cs).reverse.dropWhile isSpace = (c :: cs).reverse :=
    dropWhile_eq_self fun d hd =>
      h.not_isSpace d (List.mem_reverse.mp (List.mem_of_mem_head? hd))
  have skipped : ∀ d ∈ blanks.reverse, isSpace d = true := by simpa using hblanks
  rw [Scanner.endName, List.reverse_append, List.dropWhile_append_of_pos skipped, ends,
    List.reverse_reverse]
  simp [begins]

/-- A tag is split behind its name. -/
theorem ofBody_append (h : IsName name) {attributes : List Char}
    (hattributes : ∀ c ∈ attributes.head?, isSpace c = true) :
    Tag.ofBody (name ++ attributes) = ⟨name, attributes⟩ := by
  have inName : ∀ c ∈ name, (!isSpace c) = true := by simpa using h.not_isSpace
  rw [Tag.ofBody, List.takeWhile_append_of_pos inName, List.dropWhile_append_of_pos inName]
  cases attributes with
  | nil => simp
  | cons c cs => simp [hattributes c rfl]

end IsName

/-! ### How attributes are written -/

/-- The attributes of a tag as they are written behind its name: each behind at least one blank,
with its value in quotes of either kind, and with any blanks around the equals sign and at the
end. -/
inductive AttributeList : List Attribute → List Char → Prop where
  | nil {blanks : List Char} (hblanks : ∀ c ∈ blanks, isSpace c = true) : AttributeList [] blanks
  | cons {blanks name before after value cs : List Char} {quote : Char}
      {attributes : List Attribute} (hne : blanks ≠ []) (hblanks : ∀ c ∈ blanks, isSpace c = true)
      (hname : IsName name) (hbefore : ∀ c ∈ before, isSpace c = true)
      (hafter : ∀ c ∈ after, isSpace c = true) (hquote : quote = '\'' ∨ quote = '"')
      (hvalue : quote ∉ value) (rest : AttributeList attributes cs) :
      AttributeList (⟨name, value⟩ :: attributes)
        (blanks ++ (name ++ (before ++ '=' :: (after ++ quote :: (value ++ quote :: cs)))))

namespace AttributeList

variable {attributes : List Attribute} {cs : List Char}

theorem tagBody (h : AttributeList attributes cs) : TagBody cs := by
  induction h with
  | nil hblanks => exact tagBody_of_isSpace hblanks
  | cons _ hblanks hname hbefore hafter hquote hvalue _ ih =>
    have value := TagBody.quoted hquote hvalue ih
    have equals := TagBody.plain (c := '=') (by decide) ((tagBody_of_isSpace hafter).append value)
    exact (tagBody_of_isSpace hblanks).append
      (hname.tagBody.append ((tagBody_of_isSpace hbefore).append equals))

theorem head?_isSpace (h : AttributeList attributes cs) : ∀ c ∈ cs.head?, isSpace c = true := by
  cases h with
  | nil hblanks => exact fun c hc => hblanks c (List.mem_of_mem_head? hc)
  | @cons blanks _ _ _ _ _ _ _ hne hblanks =>
    obtain ⟨b, bs, rfl⟩ := List.exists_cons_of_ne_nil hne
    simpa using hblanks b List.mem_cons_self

theorem getLast?_ne (h : AttributeList attributes cs) : ∀ c ∈ cs.getLast?, c ≠ '/' := by
  induction h with
  | nil hblanks =>
    rintro _ hc rfl
    exact absurd (hblanks _ (List.mem_of_mem_getLast? hc)) (by decide)
  | @cons blanks name before after value cs quote _ _ _ _ _ _ hquote _ _ ih =>
    have last : (blanks ++ (name ++ (before ++ '=' :: (after ++ quote :: (value ++ quote :: cs))))
        ).getLast? = (quote :: cs).getLast? := by
      simp [List.getLast?_append, List.getLast?_cons]
    rw [last]
    intro c hc
    cases cs with
    | nil =>
      obtain rfl : quote = c := by simpa using hc
      rintro rfl
      exact absurd hquote (by decide)
    | cons d ds => exact ih c (by simpa [List.getLast?_cons_cons] using hc)

end AttributeList

/-! ### Tags -/

/-- A start tag. -/
def openingTag (name attributes : List Char) : List Char :=
  '<' :: (name ++ (attributes ++ ['>']))

/-- The tag of an element without contents. -/
def emptyTag (name attributes : List Char) : List Char :=
  '<' :: (name ++ (attributes ++ ['/', '>']))

/-- An end tag, with blanks behind the name. -/
def closingTag (name blanks : List Char) : List Char :=
  '<' :: '/' :: (name ++ (blanks ++ ['>']))

namespace Scanner

@[simp]
theorem goto_goto (s : Scanner) (m n : Mode) : (s.goto m).goto n = s.goto n :=
  rfl

@[simp]
theorem mode_goto (s : Scanner) (m : Mode) : (s.goto m).mode = m :=
  rfl

theorem goto_eq_self {s : Scanner} {m : Mode} (h : s.mode = m) : s.goto m = s := by
  subst h
  rfl

theorem run_cons (s : Scanner) (c : Char) (cs : List Char) : s.run (c :: cs) = (s.step c).run cs :=
  rfl

@[simp]
theorem closeElement_goto (s : Scanner) (m : Mode) (name : List Char) :
    (s.goto m).closeElement name = s.closeElement name := by
  obtain ⟨events, nesting, mode⟩ := s
  cases nesting <;> rfl

/-- What a tag does has nothing to do with how far it had been read. -/
@[simp]
theorem endTag_goto (s : Scanner) (m : Mode) (body : List Char) :
    (s.goto m).endTag body = s.endTag body := by
  unfold endTag
  split
  · exact closeElement_goto ..
  · rfl
  · rfl

theorem run_quoted {s : Scanner} {q : Char} {body cs : List Char} (h : q ∉ cs) :
    (s.goto (.tag (some q) body)).run cs = s.goto (.tag (some q) (cs.reverse ++ body)) := by
  refine foldl_collect (fun body => s.goto (.tag (some q) body)) (fun c hc body => ?_) body
  have : c ≠ q := ne_of_mem_of_not_mem hc h
  simp [Scanner.step, stepTag, this]

theorem run_tagBody {s : Scanner} {body cs : List Char} (h : TagBody cs) :
    (s.goto (.tag none body)).run cs = s.goto (.tag none (cs.reverse ++ body)) := by
  induction h generalizing body with
  | nil => rfl
  | @plain c cs hc _ ih =>
    have step : (s.goto (.tag none body)).step c = s.goto (.tag none (c :: body)) := by
      simp [Scanner.step, stepTag, hc]
    rw [run_cons, step, ih]
    simp
  | @quoted q value cs hq hvalue _ ih =>
    have opens : (s.goto (.tag none body)).step q = s.goto (.tag (some q) (q :: body)) := by
      obtain rfl | rfl := hq <;> rfl
    have closes (body : List Char) :
        (s.goto (.tag (some q) body)).step q = s.goto (.tag none (q :: body)) := by
      simp [Scanner.step, stepTag]
    rw [run_cons, opens, run_append, run_quoted hvalue, run_cons, closes, ih]
    simp

theorem run_unclosedTag {s : Scanner} {body : List Char} (hbody : TagBody body) (hne : body ≠ [])
    (hfirst : ∀ c ∈ body.head?, c ≠ '!' ∧ c ≠ '?') :
    (s.goto .opened).run body = s.goto (.tag none body.reverse) := by
  have entered : (s.goto .opened).run body = (s.goto (.tag none [])).run body := by
    obtain ⟨c, cs, rfl⟩ := List.exists_cons_of_ne_nil hne
    have hc := hfirst c rfl
    simp [run_cons, Scanner.step, hc, stepTag]
  rw [entered, run_tagBody hbody, List.append_nil]

/-- A tag is read to its end before anything is made of it. -/
theorem run_tag {s : Scanner} {body : List Char} (hbody : TagBody body) (hne : body ≠ [])
    (hfirst : ∀ c ∈ body.head?, c ≠ '!' ∧ c ≠ '?') :
    (s.goto .opened).run (body ++ ['>']) = s.endTag body.reverse := by
  have closed : (s.goto (.tag none body.reverse)).run ['>'] = s.endTag body.reverse :=
    endTag_goto s _ body.reverse
  rw [run_append, run_unclosedTag hbody hne hfirst, closed]

theorem endTag_opening {s : Scanner} {body : List Char} (hfirst : ∀ c ∈ body.head?, c ≠ '/')
    (hlast : ∀ c ∈ body.getLast?, c ≠ '/') :
    s.endTag body.reverse = s.openElement (Tag.ofBody body) := by
  obtain ⟨back, rfl⟩ : ∃ back : List Char, body = back.reverse := ⟨body.reverse, by simp⟩
  rw [List.reverse_reverse]
  unfold endTag
  split
  · rename_i rest _ hbody
    exact absurd rfl (hfirst '/' (by rw [hbody]; rfl))
  · rename_i inner _
    exact absurd rfl (hlast '/' (by simp))
  · rfl

theorem endTag_empty {s : Scanner} {body : List Char} (hfirst : ∀ c ∈ body.head?, c ≠ '/')
    (hne : body ≠ []) : s.endTag ('/' :: body.reverse) = s.emit (.empty (Tag.ofBody body)) := by
  obtain ⟨c, cs, rfl⟩ := List.exists_cons_of_ne_nil hne
  have hc : c ≠ '/' := hfirst c rfl
  unfold endTag
  split
  · rename_i rest _ hbody
    simp [hc] at hbody
  · rename_i inner heq _
    obtain ⟨-, rfl⟩ := List.cons.inj heq
    rw [List.reverse_reverse]
  · rename_i hother
    exact absurd rfl (hother _)

variable {s : Scanner} {name cs : List Char} {attributes : List Attribute}

/-- **A start tag** opens an element. -/
theorem run_openingTag (hname : IsName name) (hattributes : AttributeList attributes cs) :
    (s.goto .opened).run (name ++ (cs ++ ['>'])) = s.openElement ⟨name, cs⟩ := by
  obtain ⟨c, rest, rfl⟩ := List.exists_cons_of_ne_nil hname.1
  have other : ∀ d : Char, isNameChar d = false → c ≠ d := fun d hd =>
    ne_of_mem_of_not_mem List.mem_cons_self (hname.not_mem hd)
  have first : ∀ d ∈ (c :: rest ++ cs).head?, d = c := by simp
  have last : ∀ d ∈ (c :: rest ++ cs).getLast?, d ≠ '/' := by
    intro d hd
    rw [List.getLast?_append] at hd
    cases hcs : cs.getLast? with
    | some e =>
      rw [hcs] at hd
      obtain rfl := Option.some.inj hd
      exact hattributes.getLast?_ne e hcs
    | none =>
      rw [hcs, Option.none_or] at hd
      exact ne_of_mem_of_not_mem (List.mem_of_mem_getLast? hd) (hname.not_mem (by decide))
  rw [← List.append_assoc, run_tag (hname.tagBody.append hattributes.tagBody) (by simp) ?_,
    endTag_opening ?_ last, hname.ofBody_append hattributes.head?_isSpace]
  · intro d hd
    exact first d hd ▸ other '/' (by decide)
  · intro d hd
    exact first d hd ▸ ⟨other '!' (by decide), other '?' (by decide)⟩

/-- **The tag of an element without contents** opens nothing. -/
theorem run_emptyTag (hname : IsName name) (hattributes : AttributeList attributes cs) :
    (s.goto .opened).run (name ++ (cs ++ ['/', '>'])) = s.emit (.empty ⟨name, cs⟩) := by
  obtain ⟨c, rest, rfl⟩ := List.exists_cons_of_ne_nil hname.1
  have other : ∀ d : Char, isNameChar d = false → c ≠ d := fun d hd =>
    ne_of_mem_of_not_mem List.mem_cons_self (hname.not_mem hd)
  have slash : TagBody ['/'] := .plain (by decide) .nil
  have body := (hname.tagBody.append hattributes.tagBody).append slash
  have split : c :: rest ++ (cs ++ ['/', '>']) = (c :: rest ++ cs ++ ['/']) ++ ['>'] := by simp
  rw [split, run_tag body (by simp) ?_, List.reverse_append, List.reverse_singleton,
    List.singleton_append, endTag_empty ?_ (by simp), hname.ofBody_append hattributes.head?_isSpace]
  · simpa using other '/' (by decide)
  · simpa using ⟨other '!' (by decide), other '?' (by decide)⟩

/-- **An end tag** closes the element that is open. -/
theorem run_closingTag (hname : IsName name) {blanks : List Char}
    (hblanks : ∀ c ∈ blanks, isSpace c = true) :
    (s.goto .opened).run ('/' :: (name ++ (blanks ++ ['>']))) = s.closeElement name := by
  have body : TagBody ('/' :: (name ++ blanks)) :=
    .plain (by decide) (hname.tagBody.append (tagBody_of_isSpace hblanks))
  have split : '/' :: (name ++ (blanks ++ ['>'])) = '/' :: (name ++ blanks) ++ ['>'] := by simp
  rw [split, run_tag body (by simp) (by simp)]
  simp only [endTag, List.reverse_reverse, hname.endName_append hblanks]

end Scanner

/-! ### Reading attributes -/

namespace AttributeScanner

variable {s : AttributeScanner} {name cs : List Char}

theorem run_cons (s : AttributeScanner) (c : Char) (cs : List Char) :
    s.run (c :: cs) = (s.step c).run cs :=
  rfl

theorem run_between (h : ∀ c ∈ cs, isSpace c = true) :
    (s.goto .between).run cs = s.goto .between :=
  foldl_skip fun c hc => by simp [AttributeScanner.step, goto, h c hc]

theorem run_name {collected : List Char} (h : ∀ c ∈ cs, c ≠ '=' ∧ isSpace c = false) :
    (s.goto (.name collected)).run cs = s.goto (.name (cs.reverse ++ collected)) := by
  refine foldl_collect (fun cs => s.goto (.name cs)) (fun c hc cs => ?_) collected
  simp [AttributeScanner.step, goto, h c hc]

theorem run_beforeValue (h : ∀ c ∈ cs, isSpace c = true) :
    (s.goto (.beforeValue name)).run cs = s.goto (.beforeValue name) :=
  foldl_skip fun c hc => by simp [AttributeScanner.step, goto, h c hc]

theorem run_value {collected : List Char} {quote : Char} (h : quote ∉ cs) :
    (s.goto (.value name quote collected)).run cs =
      s.goto (.value name quote (cs.reverse ++ collected)) := by
  refine foldl_collect (fun cs => s.goto (.value name quote cs)) (fun c hc cs => ?_) collected
  have : c ≠ quote := ne_of_mem_of_not_mem hc h
  simp [AttributeScanner.step, goto, this]

/-- The equals sign ends a name, with or without blanks before it. -/
theorem run_equals {collected : List Char} (h : ∀ c ∈ cs, isSpace c = true) :
    (s.goto (.name collected)).run (cs ++ ['=']) = s.expectValue collected.reverse := by
  cases cs with
  | nil => rfl
  | cons c cs =>
    obtain ⟨hc, hcs⟩ := List.forall_mem_cons.mp h
    have named : c ≠ '=' := by
      rintro rfl
      exact absurd hc (by decide)
    have left : (s.goto (.name collected)).step c = s.goto (.beforeEquals collected.reverse) := by
      simp [AttributeScanner.step, goto, named, hc]
    have waits : (s.goto (.beforeEquals collected.reverse)).run cs =
        s.goto (.beforeEquals collected.reverse) := by
      refine foldl_skip fun d hd => ?_
      have : d ≠ '=' := by
        rintro rfl
        exact absurd (hcs _ hd) (by decide)
      simp [AttributeScanner.step, goto, this, hcs d hd]
    rw [List.cons_append, run_cons, left, run_append, waits]
    rfl

theorem expectValue_of_forall (h : ∀ a ∈ s.attributes, a.name ≠ name) :
    s.expectValue name = s.goto (.beforeValue name) := by
  have : s.attributes.any (fun a => a.name == name) = false := by simpa using h
  rw [expectValue, this]
  rfl

/-- **Attributes that are written** are read, if there is no other of the same name. -/
theorem run_attributeList {attributes : List Attribute} (h : AttributeList attributes cs)
    (hnodup : (attributes.map Attribute.name ++ s.attributes.map Attribute.name).Nodup) :
    (s.goto .between).run cs = ⟨attributes.reverse ++ s.attributes, .between⟩ := by
  induction h generalizing s with
  | nil hblanks => exact run_between hblanks
  | @cons blanks name before after value cs quote attributes _ hblanks hname hbefore hafter hquote
      hvalue _ ih =>
    rw [List.map_cons, List.cons_append, List.nodup_cons, List.mem_append, not_or] at hnodup
    obtain ⟨⟨hnew, hold⟩, hrest⟩ := hnodup
    obtain ⟨c, name, rfl⟩ := List.exists_cons_of_ne_nil hname.1
    have inName : ∀ d ∈ c :: name, d ≠ '=' ∧ isSpace d = false := fun d hd =>
      ⟨ne_of_mem_of_not_mem hd (hname.not_mem (by decide)), hname.not_isSpace d hd⟩
    obtain ⟨hc, hcs⟩ := List.forall_mem_cons.mp inName
    have begun : (s.goto .between).step c = s.goto (.name [c]) := by
      simp [AttributeScanner.step, goto, hc.2]
    have unused : ∀ a ∈ s.attributes, a.name ≠ c :: name := by
      intro a ha heq
      have : a.name ∈ s.attributes.map Attribute.name := List.mem_map_of_mem ha
      exact hold (heq ▸ this)
    have opened : (s.goto (.beforeValue (c :: name))).step quote =
        s.goto (.value (c :: name) quote []) := by
      obtain rfl | rfl := hquote <;> rfl
    have closed : (s.goto (.value (c :: name) quote value.reverse)).step quote =
        goto ⟨⟨c :: name, value⟩ :: s.attributes, .between⟩ .between := by
      simp [AttributeScanner.step, goto]
    have next := ih (s := ⟨⟨c :: name, value⟩ :: s.attributes, .between⟩)
      (List.nodup_middle.mpr (List.nodup_cons.mpr ⟨by simp [hnew, hold], hrest⟩))
    have split (rest : List Char) : blanks ++ (c :: name ++ (before ++ '=' :: (after ++ rest))) =
        blanks ++ c :: (name ++ ((before ++ ['=']) ++ (after ++ rest))) := by
      simp
    rw [split, run_append, run_between hblanks, run_cons, begun, run_append, run_name hcs,
      run_append, run_equals hbefore, List.reverse_append, List.reverse_reverse,
      List.reverse_singleton, List.singleton_append, expectValue_of_forall unused, run_append,
      run_beforeValue hafter, run_cons, opened, run_append, run_value hvalue, List.append_nil,
      run_cons, closed, next]
    simp

end AttributeScanner

/-- **The attributes of a tag** are read as they were written, if their names are distinct. -/
theorem AttributeList.readAttributes_eq {attributes : List Attribute} {element cs : List Char}
    (h : AttributeList attributes cs) (hnodup : (attributes.map Attribute.name).Nodup) :
    (⟨element, cs⟩ : Tag).readAttributes = (attributes, true) := by
  have read := AttributeScanner.run_attributeList (s := {}) h (by simpa using hnodup)
  rw [show ({} : AttributeScanner).goto .between = {} from rfl] at read
  simp [Tag.readAttributes, read]

end Markup

end Quadrille
