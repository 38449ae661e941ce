import Mathlib.Data.List.Induction
import Quadrille.CommandLine.Options
import Quadrille.Proofs.Traversal

/-!
# What a command line says

A command line is a list of items: options with their values, the one option that takes none, and
the name of a file. The words of an item are one or two arguments, and a value may look like an
option itself, so where one item ends and the next begins is only known from the front.

Reading a command line gives the options that its items stand for, and a command line can be read
exactly if it consists of items that can. What the options are depends, for each kind of item, on
the items of that kind in their order, and on nothing else: edits and colors add up, of the others
the last one counts. So items of different kinds can change places.

## Main definitions

* `Item`, `words` — what is said, and the arguments that say it
* `WellFormed` — each item can be read, and there is one file at most
* `ofItems` — the options that some items stand for
* `SameByKind` — the same items of each kind, in the same order

## Main results

* `Options.ofArguments_eq_run_iff` — what can be read, and as what
* `Options.ofArguments_words_congr` — items of different kinds can change places
-/

namespace Quadrille

namespace Options

/-- Something that is said on a command line. An option is kept as it was typed. -/
inductive Item where
  | option (flag : Flag) (argument value : String)
  | ignoreUserConfig
  | file (path : String)

/-- The kinds of items. -/
inductive Item.Kind where
  | option (flag : Flag)
  | ignoreUserConfig
  | file
  deriving DecidableEq

namespace Item

/-- The kind of an item. -/
def kind : Item → Kind
  | .option flag .. => .option flag
  | .ignoreUserConfig => .ignoreUserConfig
  | .file _ => .file

/-- The arguments that say an item. -/
def words : Item → List String
  | .option _ argument value => [argument, value]
  | .ignoreUserConfig => ["--no-default-config"]
  | .file path => [path]

/-- The value of an item, if it is the option asked for. -/
def value? (flag : Flag) : Item → Option String
  | .option flag' _ value => if flag' = flag then some value else none
  | _ => none

/-- The file that an item names. -/
def file? : Item → Option String
  | .file path => some path
  | _ => none

end Item

/-- The arguments that say some items. -/
def words (items : List Item) : List String :=
  items.flatMap Item.words

/-- The two sides of an assignment, if there is an equals sign. -/
def assignment? (value : String) : Option (String × String) :=
  (splitAssignment "" value).toOption

/-- The count that a value stands for. -/
def count? (value : String) : Option Nat :=
  (readCount "" value).toOption

/-- Whether an option can have a value. -/
def Flag.Accepts (value : String) : Flag → Prop
  | .set | .color => ∃ assignment, assignment? value = some assignment
  | .undo | .rows | .columns => ∃ n, count? value = some n
  | .output | .config => True

/-- Whether the words of an item say it: an option is called by one of its names and can have its
value, and a file is not taken for an option. -/
def Item.Reads : Item → Prop
  | .option flag argument value => Flag.ofArgument? argument = some flag ∧ flag.Accepts value
  | .ignoreUserConfig => True
  | .file path => path.startsWith "-" = false

/-- The values of an option, in order. -/
def values (flag : Flag) (items : List Item) : List String :=
  items.filterMap (Item.value? flag)

/-- The files that are named. -/
def files (items : List Item) : List String :=
  items.filterMap Item.file?

/-- Every item can be read, and there is at most one file. -/
structure WellFormed (items : List Item) : Prop where
  reads : ∀ item ∈ items, item.Reads
  one_file : (files items).length ≤ 1

/-- The options that some items stand for. Edits and colors are taken together, of the other options
the last one counts. -/
def ofItems (items : List Item) : Options where
  file := (files items).head?
  edits := (values .set items).filterMap assignment?
  colors := (values .color items).filterMap assignment?
  undo := ((values .undo items).filterMap count?).getLast?.getD 0
  output := (values .output items).getLast?
  rows := ((values .rows items).filterMap count?).getLast?
  columns := ((values .columns items).filterMap count?).getLast?
  config := (values .config items).getLast?
  ignoreUserConfig := items.any fun item => item.kind = .ignoreUserConfig

/-- The same items of each kind, in the same order. -/
def SameByKind (items items' : List Item) : Prop :=
  ∀ kind, (items'.filter fun item => item.kind = kind) = items.filter fun item => item.kind = kind

variable {o o' : Options} {item : Item} {items items' : List Item} {flag : Flag}
  {argument value path : String} {arguments rest : List String}

/-! ### Reading one item -/

theorem splitAssignment_eq (argument value : String) :
    splitAssignment argument value = match assignment? value with
      | some assignment => .ok assignment
      | none => .error (.notAnAssignment argument value) := by
  rw [assignment?, splitAssignment, splitAssignment]
  cases value.toList.dropWhile (· != '=') <;> rfl

theorem readCount_eq (argument value : String) :
    readCount argument value = match count? value with
      | some n => .ok n
      | none => .error (.notACount argument value) := by
  rw [count?, readCount, readCount]
  cases Count.ofText? Count.largest (Text.trim value.toList) <;> rfl

/-- The options with one more item taken up. -/
def take (o : Options) : Item → Options
  | .option .set _ value => { o with edits := o.edits ++ (assignment? value).toList }
  | .option .color _ value => { o with colors := o.colors ++ (assignment? value).toList }
  | .option .undo _ value => { o with undo := (count? value).getD o.undo }
  | .option .output _ value => { o with output := some value }
  | .option .rows _ value => { o with rows := (count? value).or o.rows }
  | .option .columns _ value => { o with columns := (count? value).or o.columns }
  | .option .config _ value => { o with config := some value }
  | .ignoreUserConfig => { o with ignoreUserConfig := true }
  | .file path => { o with file := some path }

/-- An option is taken up exactly if it can have its value. -/
theorem apply_eq_ok_iff :
    o.apply flag argument value = .ok o' ↔
      flag.Accepts value ∧ o' = o.take (.option flag argument value) := by
  cases flag with
  | set | color =>
    cases h : assignment? value <;>
      simp [apply, take, splitAssignment_eq, Flag.Accepts, h, bind, Except.bind, pure, Except.pure,
        eq_comm]
  | undo | rows | columns =>
    cases h : count? value <;>
      simp [apply, take, readCount_eq, Flag.Accepts, h, bind, Except.bind, pure, Except.pure,
        eq_comm]
  | output | config => simp [apply, take, Flag.Accepts, pure, Except.pure, eq_comm]

/-- Every option begins with a hyphen. -/
theorem startsWith_of_option (h : (argument = "-h" ∨ argument = "--help") ∨
      argument = "--no-default-config" ∨ (Flag.ofArgument? argument).isSome) :
    argument.startsWith "-" = true := by
  have hnames : argument ∈ ["-h", "--help", "--no-default-config", "-s", "--set", "--color", "-u",
      "--undo", "-o", "--output", "--rows", "--columns", "--config"] := by
    by_contra hnot
    simp only [List.mem_cons, List.not_mem_nil, or_false, not_or] at hnot
    simp [Flag.ofArgument?, hnot] at h
  have hall : ∀ name ∈ ["-h", "--help", "--no-default-config", "-s", "--set", "--color", "-u",
      "--undo", "-o", "--output", "--rows", "--columns", "--config"],
      name.startsWith "-" = true := by simp
  exact hall argument hnames

/-- An option that takes a value is none of those that take none. -/
theorem ofArgument?_eq_none
    (h : (argument = "-h" ∨ argument = "--help") ∨ argument = "--no-default-config") :
    Flag.ofArgument? argument = none := by
  rcases h with (rfl | rfl) | rfl <;> decide

/-- The words of an item are read as the item, unless they name a second file. -/
theorem readArguments_append (h : item.Reads) (hfile : item.file?.isSome → o.file = none) :
    readArguments o (item.words ++ rest) = readArguments (o.take item) rest := by
  cases item with
  | option flag argument value =>
    obtain ⟨hflag, haccepts⟩ := h
    have hhelp : ¬(argument = "-h" ∨ argument = "--help") := fun hargument => by
      simp [ofArgument?_eq_none (Or.inl hargument)] at hflag
    have hnone : argument ≠ "--no-default-config" := fun hargument => by
      simp [ofArgument?_eq_none (Or.inr hargument)] at hflag
    show readArguments o (argument :: value :: rest) = _
    conv_lhs => unfold readArguments
    rw [if_neg hhelp, if_neg hnone, hflag]
    simp only [apply_eq_ok_iff.mpr ⟨haccepts, rfl⟩]
  | ignoreUserConfig => rfl
  | file path =>
    have hpath : path.startsWith "-" = false := h
    have hoption := mt startsWith_of_option (Bool.eq_false_iff.mp hpath)
    obtain ⟨hhelp, hother⟩ := not_or.mp hoption
    obtain ⟨hnone, hflag⟩ := not_or.mp hother
    rw [Option.not_isSome_iff_eq_none] at hflag
    show readArguments o (path :: rest) = _
    conv_lhs => unfold readArguments
    rw [if_neg hhelp, if_neg hnone, hflag]
    simp [hpath, hfile rfl, take]

/-! ### Reading a command line -/

theorem words_cons (item : Item) (items : List Item) :
    words (item :: items) = item.words ++ words items :=
  List.flatMap_cons

theorem file_take (o : Options) (item : Item) : (o.take item).file = item.file?.or o.file := by
  cases item with
  | option flag argument value => cases flag <;> rfl
  | _ => rfl

theorem files_cons (item : Item) (items : List Item) :
    files (item :: items) = item.file?.toList ++ files items := by
  rw [files, List.filterMap_cons]
  cases item.file? <;> rfl

/-- There is one file at most, with the one that there may be already. -/
def AtMostOneFile (o : Options) (items : List Item) : Prop :=
  (o.file.toList ++ files items).length ≤ 1

theorem atMostOneFile_iff : AtMostOneFile {} items ↔ (files items).length ≤ 1 := by
  simp [AtMostOneFile]

theorem atMostOneFile_cons_iff : o.AtMostOneFile (item :: items) ↔
    (item.file?.isSome → o.file = none) ∧ (o.take item).AtMostOneFile items := by
  rw [AtMostOneFile, AtMostOneFile, files_cons, file_take]
  cases item.file? <;> cases o.file <;> simp

/-- What consists of items that can be read is read as these items. -/
theorem readArguments_words (h : ∀ item ∈ items, item.Reads) (hfile : o.AtMostOneFile items) :
    readArguments o (words items) = .run (items.foldl take o) := by
  -- what has been taken up already counts for whether another file may come
  induction items generalizing o with
  | nil => rfl
  | cons item items ih =>
    obtain ⟨hitem, hitems⟩ := List.forall_mem_cons.mp h
    obtain ⟨hone, hrest⟩ := atMostOneFile_cons_iff.mp hfile
    rw [words_cons, readArguments_append hitem hone, ih hitems hrest, List.foldl_cons]

/-- The options that some arguments are read as come from items that the arguments say. -/
def SaidBy (o : Options) (arguments : List String) : Prop :=
  ∃ items, (∀ item ∈ items, item.Reads) ∧ o.AtMostOneFile items ∧ arguments = words items

theorem SaidBy.cons (hitem : item.Reads) (hone : item.file?.isSome → o.file = none)
    (h : (o.take item).SaidBy rest) : o.SaidBy (item.words ++ rest) := by
  obtain ⟨items, hitems, hrest, rfl⟩ := h
  exact ⟨item :: items, List.forall_mem_cons.mpr ⟨hitem, hitems⟩,
    atMostOneFile_cons_iff.mpr ⟨hone, hrest⟩, (words_cons item items).symm⟩

/-- What can be read consists of items that can be read. -/
theorem saidBy_of_readArguments (h : readArguments o arguments = .run o') :
    o.SaidBy arguments := by
  -- three of the cases take up an item; the others but the first end the reading
  induction o, arguments using readArguments.induct with
  | case1 o =>
    refine ⟨[], by simp, ?_, rfl⟩
    rw [AtMostOneFile]
    cases o.file <;> simp [files]
  | case2 o argument rest hhelp =>
    unfold readArguments at h
    simp [hhelp] at h
  | case3 o rest _ ih =>
    have hitem : Item.ignoreUserConfig.Reads := trivial
    have hone : Item.ignoreUserConfig.file?.isSome → o.file = none := by simp [Item.file?]
    exact .cons hitem hone (ih ((readArguments_append hitem hone).symm.trans h))
  | case4 o argument hhelp hnone flag hflag =>
    unfold readArguments at h
    simp [hhelp, hnone, hflag] at h
  | case5 o argument hhelp hnone flag value rest hflag o₁ ho₁ ih =>
    obtain ⟨haccepts, rfl⟩ := apply_eq_ok_iff.mp ho₁
    have hitem : (Item.option flag argument value).Reads := ⟨hflag, haccepts⟩
    have hone : (Item.option flag argument value).file?.isSome → o.file = none := by
      simp [Item.file?]
    exact .cons hitem hone (ih ((readArguments_append hitem hone).symm.trans h))
  | case6 o argument hhelp hnone flag value rest hflag e he =>
    unfold readArguments at h
    simp [hhelp, hnone, hflag, he] at h
  | case7 o argument hhelp hnone rest hflag hhyphen =>
    unfold readArguments at h
    rw [if_neg hhelp, if_neg hnone, hflag] at h
    simp [hhyphen] at h
  | case8 o argument hhelp hnone rest hflag hhyphen hfile =>
    unfold readArguments at h
    rw [if_neg hhelp, if_neg hnone, hflag] at h
    simp [hhyphen, hfile] at h
  | case9 o argument hhelp hnone rest hflag hhyphen hfile ih =>
    have hitem : (Item.file argument).Reads := Bool.eq_false_iff.mpr hhyphen
    have hone : (Item.file argument).file?.isSome → o.file = none := fun _ =>
      Option.not_isSome_iff_eq_none.mp hfile
    exact .cons hitem hone (ih ((readArguments_append hitem hone).symm.trans h))

/-! ### The options that items stand for -/

theorem values_concat (flag : Flag) (items : List Item) (item : Item) :
    values flag (items ++ [item]) = values flag items ++ (item.value? flag).toList := by
  rw [values, List.filterMap_append]
  cases h : item.value? flag <;> simp [values, h]

theorem files_concat (items : List Item) (item : Item) :
    files (items ++ [item]) = files items ++ item.file?.toList := by
  rw [files, List.filterMap_append]
  cases h : item.file? <;> simp [files, h]

theorem ofItems_concat (hitem : item.Reads) (hone : (files (items ++ [item])).length ≤ 1) :
    ofItems (items ++ [item]) = (ofItems items).take item := by
  cases item with
  | option flag argument value =>
    obtain ⟨-, haccepts⟩ := hitem
    cases flag with
    | set | color =>
      obtain ⟨assignment, ha⟩ := haccepts
      simp [ofItems, take, values_concat, files_concat, Item.value?, Item.file?, Item.kind, ha]
    | undo | rows | columns =>
      obtain ⟨n, hn⟩ := haccepts
      simp [ofItems, take, values_concat, files_concat, Item.value?, Item.file?, Item.kind, hn]
    | output | config =>
      simp [ofItems, take, values_concat, files_concat, Item.value?, Item.file?, Item.kind]
  | ignoreUserConfig =>
    simp [ofItems, take, values_concat, files_concat, Item.value?, Item.file?, Item.kind]
  | file path =>
    rw [files_concat, List.length_append] at hone
    have hnil : files items = [] := by simpa [Item.file?] using hone
    simp [ofItems, take, values_concat, files_concat, Item.value?, Item.file?, Item.kind, hnil]

theorem WellFormed.of_concat (h : WellFormed (items ++ [item])) : WellFormed items where
  reads other hother := h.reads other (List.mem_append_left _ hother)
  one_file := by
    have hone := h.one_file
    rw [files_concat, List.length_append] at hone
    omega

/-- Taking up items one after another gives the options that they stand for. -/
theorem foldl_take_eq_ofItems (h : WellFormed items) : items.foldl take {} = ofItems items := by
  -- from the right, since of most options the last one counts
  induction items using List.reverseRecOn with
  | nil => rfl
  | append_singleton items item ih =>
    have hitem := h.reads item (List.mem_append_right _ (List.mem_singleton.mpr rfl))
    rw [List.foldl_append, ih h.of_concat, ofItems_concat hitem h.one_file]
    rfl

theorem ofArguments_words (h : WellFormed items) :
    ofArguments (words items) = .run (ofItems items) := by
  rw [ofArguments, readArguments_words h.reads (atMostOneFile_iff.mpr h.one_file),
    foldl_take_eq_ofItems h]

/-- **What a command line is read as.** It can be read exactly if it consists of items that can be
read, with one file at most, and it is read as the options that they stand for. -/
theorem ofArguments_eq_run_iff :
    ofArguments arguments = .run o ↔
      ∃ items, WellFormed items ∧ arguments = words items ∧ o = ofItems items := by
  constructor
  · intro h
    obtain ⟨items, hitems, hone, rfl⟩ := saidBy_of_readArguments h
    have hwell : WellFormed items := ⟨hitems, atMostOneFile_iff.mp hone⟩
    exact ⟨items, hwell, rfl, (Invocation.run.inj ((ofArguments_words hwell).symm.trans h)).symm⟩
  · rintro ⟨items, hwell, rfl, rfl⟩
    exact ofArguments_words hwell

/-! ### The order of items -/

theorem values_filter (flag : Flag) (items : List Item) :
    values flag (items.filter fun item => item.kind = .option flag) = values flag items := by
  rw [values, List.filterMap_filter]
  refine List.filterMap_congr fun item _ => ?_
  cases item with
  | option flag' argument value =>
    by_cases hflag : flag' = flag <;> simp [Item.kind, Item.value?, hflag]
  | _ => simp [Item.kind, Item.value?]

theorem files_filter (items : List Item) :
    files (items.filter fun item => item.kind = .file) = files items := by
  rw [files, List.filterMap_filter]
  refine List.filterMap_congr fun item _ => ?_
  cases item <;> simp [Item.kind, Item.file?]

namespace SameByKind

theorem mem_iff (h : SameByKind items items') : item ∈ items' ↔ item ∈ items := by
  have hmem : ∀ items : List Item,
      item ∈ items ↔ item ∈ items.filter fun other => other.kind = item.kind := by
    intro items
    simp
  rw [hmem items', h item.kind, ← hmem items]

theorem values_eq (h : SameByKind items items') (flag : Flag) :
    values flag items' = values flag items := by
  rw [← values_filter, h, values_filter]

theorem files_eq (h : SameByKind items items') : files items' = files items := by
  rw [← files_filter, h, files_filter]

theorem wellFormed (h : SameByKind items items') (hwell : WellFormed items) :
    WellFormed items' where
  reads item hitem := hwell.reads item (h.mem_iff.mp hitem)
  one_file := h.files_eq ▸ hwell.one_file

/-- The options do not depend on the order of items of different kinds. -/
theorem ofItems_eq (h : SameByKind items items') : ofItems items' = ofItems items := by
  have hany : (items'.any fun item => item.kind = .ignoreUserConfig) =
      items.any fun item => item.kind = .ignoreUserConfig := by
    rw [Bool.eq_iff_iff, List.any_eq_true, List.any_eq_true]
    simp only [h.mem_iff]
  simp only [ofItems, h.values_eq, h.files_eq, hany]

end SameByKind

/-- **Items of different kinds can change places.** -/
theorem ofArguments_words_congr (h : SameByKind items items') (hwell : WellFormed items) :
    ofArguments (words items') = ofArguments (words items) := by
  rw [ofArguments_words (h.wellFormed hwell), ofArguments_words hwell, h.ofItems_eq]

end Options

end Quadrille
