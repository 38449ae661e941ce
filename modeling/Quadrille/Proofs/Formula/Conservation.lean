import Mathlib.Data.List.Count
import Quadrille.Proofs.Formula.Postorder

/-!
# What rearranging keeps

Putting the operators behind their operands loses nothing and makes nothing up, whatever the text
is. There are three outcomes and no more: a character that belongs in no formula is reported,
wherever it stands and whatever the parentheses do; failing that, parentheses that do not match are
reported; and failing that, there is a postfix order, which has the operands of the text in the
order of the text and each operator as often as the text has it.

None of this asks whether the text is a formula. So everything here is about the two machines by
themselves, the scanner and the stack of waiting operators, and goes by induction on what they have
still to read. For the stack it is enough to know that what is taken off it is a run of operators
(`untilParen_eq`, `beforeOperator_eq`): taken together with the output, nothing has moved.

## Main definitions

* `Token.Foreign` — a character that belongs in no formula
* `Token.runs`, `Token.operands` — the operands of a text and of a list of tokens
* `Mismatched` — parentheses that do not match
* `Postfix.Conserves` — what a postfix order keeps of its text

## Main results

* `Token.scan_eq_error_iff`, `Token.operands_of_scan`, `Token.balanced_iff_of_scan`
* `Postfix.arrange_eq_error_iff`, `Postfix.arrange_conserves`
* `Postfix.ofText_outcome` — the three outcomes, and the leaves of what is read in the end
-/

namespace Quadrille

namespace Token

/-- Whether a character belongs in no formula: it is no blank, no letter or digit, no point, no
parenthesis and no operator. -/
def Foreign (c : Char) : Prop :=
  Text.isBlank c = false ∧ c.isAlphanum = false ∧ c ∉ ['.', '(', ')', '+', '-', '*', '/']

instance (c : Char) : Decidable (Foreign c) :=
  inferInstanceAs (Decidable (_ ∧ _ ∧ _))

/-- The operands of a text: its longest runs of letters, digits and points once the blanks have been
left out, from left to right. -/
def runs (s : String) : List String :=
  (((s.toList.filter fun c => !Text.isBlank c).splitOnP fun c => !isOperandChar c).filter
    (· ≠ [])).map String.ofList

/-- The text of a token, if it is an operand. -/
def operand? : Token → Option String
  | .operand text => some text
  | .operator _ | .leftParen | .rightParen => none

/-- The operands among some tokens, in their order. -/
def operands (ts : List Token) : List String :=
  ts.filterMap operand?

end Token

/-- Whether the parentheses of a text do not match: some beginning of it closes more of them than it
opens, or the whole opens and closes different numbers. -/
def Mismatched (cs : List Char) : Prop :=
  (∃ front, front <+: cs ∧ front.count '(' < front.count ')') ∨ cs.count '(' ≠ cs.count ')'

/-! ### Parentheses -/

/-- Every parenthesis of a text has its partner, given how many are open before it: no beginning of
the text closes more than are open, and the whole closes all of them. -/
def Nested (depth : Nat) (cs : List Char) : Prop :=
  (∀ front, front <+: cs → front.count ')' ≤ depth + front.count '(') ∧
    cs.count ')' = depth + cs.count '('

section Nested

variable {depth : Nat} {c : Char} {cs : List Char}

theorem forall_prefix_cons {P : List Char → Prop} :
    (∀ front, front <+: c :: cs → P front) ↔ P [] ∧ ∀ front, front <+: cs → P (c :: front) := by
  simp only [List.prefix_cons_iff, or_imp, forall_and, forall_eq, forall_exists_index, and_imp]
  refine and_congr_right fun _ => ⟨fun h front => h _ front rfl, ?_⟩
  rintro h _ front rfl
  exact h front

theorem nested_nil : Nested depth [] ↔ depth = 0 := by
  simp [Nested, eq_comm]

theorem nested_open : Nested depth ('(' :: cs) ↔ Nested (depth + 1) cs := by
  simp [Nested, forall_prefix_cons, Nat.add_assoc, Nat.add_comm 1]

theorem not_nested_close : ¬Nested 0 (')' :: cs) := by
  intro h
  have first := h.1 [')'] (by simp)
  simp at first

theorem nested_close : Nested (depth + 1) (')' :: cs) ↔ Nested depth cs := by
  simp [Nested, forall_prefix_cons, Nat.add_right_comm depth 1]

theorem nested_cons_of_ne (hopen : c ≠ '(') (hclose : c ≠ ')') :
    Nested depth (c :: cs) ↔ Nested depth cs := by
  simp [Nested, forall_prefix_cons, List.count_cons_of_ne hopen, List.count_cons_of_ne hclose]

end Nested

/-! ### Scanning -/

namespace Token

variable {pending cs : List Char} {ts us : List Token} {c : Char} {t : Token}

/-- The characters that make a token by themselves. -/
theorem ofChar_eq_ok_iff : ofChar c = .ok t ↔
    (c = '(' ∧ t = .leftParen) ∨ (c = ')' ∧ t = .rightParen) ∨
      ∃ op : Operator, c = op.symbol ∧ t = .operator op := by
  constructor
  · intro h
    rw [ofChar] at h
    split at h
    · exact .inl ⟨‹_›, (Except.ok.inj h).symm⟩
    · split at h
      · exact .inr (.inl ⟨‹_›, (Except.ok.inj h).symm⟩)
      · split at h
        · next op hop =>
          exact .inr (.inr ⟨op, (Operator.symbol_of_ofSymbol? hop).symm, (Except.ok.inj h).symm⟩)
        · simp at h
  · rintro (⟨rfl, rfl⟩ | ⟨rfl, rfl⟩ | ⟨op, rfl, rfl⟩)
    · rfl
    · rfl
    · exact ofChar_symbol op

/-- A character outside operands is a token, or it is reported. -/
theorem ofChar_eq_error_iff {e : FormulaError} (hblank : Text.isBlank c = false)
    (hc : isOperandChar c = false) :
    ofChar c = .error e ↔ Foreign c ∧ e = .unsupportedOperator c := by
  obtain ⟨halphanum, hpoint⟩ : c.isAlphanum = false ∧ c ≠ '.' := by
    simpa [isOperandChar] using hc
  have none_iff : Operator.ofSymbol? c = none ↔ c ≠ '+' ∧ c ≠ '-' ∧ c ≠ '*' ∧ c ≠ '/' := by
    simp [Operator.ofSymbol?, ite_eq_iff]
  rw [ofChar]
  constructor
  · intro h
    split at h
    · simp at h
    · split at h
      · simp at h
      · split at h
        · simp at h
        · next hsymbol =>
          have hsymbol := none_iff.mp hsymbol
          exact ⟨⟨hblank, halphanum, by simp_all⟩, (Except.error.inj h).symm⟩
  · rintro ⟨⟨-, -, hmarks⟩, rfl⟩
    simp only [List.mem_cons, List.not_mem_nil, or_false, not_or] at hmarks
    obtain ⟨-, hopen, hclose, hsymbol⟩ := hmarks
    rw [if_neg hopen, if_neg hclose, none_iff.mpr hsymbol]

theorem not_foreign_of_isOperandChar (hc : isOperandChar c = true) : ¬Foreign c := by
  rintro ⟨-, halphanum, hmarks⟩
  simp_all [isOperandChar]

/-- What a text is split into, from its first character on. -/
theorem scan_cons_eq_ok_iff : scan pending (c :: cs) = .ok ts ↔
    (isOperandChar c = true ∧ scan (c :: pending) cs = .ok ts) ∨
      (isOperandChar c = false ∧ ∃ t us, ofChar c = .ok t ∧ scan [] cs = .ok us ∧
        ts = ofPending pending ++ t :: us) := by
  rw [scan]
  cases isOperandChar c with
  | true => simp
  | false =>
    simp only [Bool.false_eq_true, if_false, false_and, false_or, true_and, bind_eq_ok_iff, pure,
      Except.pure, Except.ok.injEq, eq_comm (b := ts), exists_and_left]

/-- **The first character that belongs in no formula** is reported, and nothing else is. -/
theorem scan_eq_error_iff {e : FormulaError} (hcs : ∀ c ∈ cs, Text.isBlank c = false) :
    scan pending cs = .error e ↔
      ∃ c, cs.find? (Foreign ·) = some c ∧ e = .unsupportedOperator c := by
  induction cs generalizing pending with
  | nil => simp [scan]
  | cons c cs ih =>
    obtain ⟨hblank, hcs⟩ := List.forall_mem_cons.mp hcs
    rw [scan]
    cases hc : isOperandChar c with
    | true =>
      rw [List.find?_cons_of_neg (by simpa using not_foreign_of_isOperandChar hc)]
      exact ih hcs
    | false =>
      rw [if_neg (by simp), bind_eq_error_iff, ofChar_eq_error_iff hblank hc]
      by_cases hforeign : Foreign c
      · have stopped : ∀ t, ofChar c ≠ .ok t := fun t ht =>
          absurd (((ofChar_eq_error_iff hblank hc).mpr ⟨hforeign, rfl⟩).symm.trans ht) (by simp)
        rw [List.find?_cons_of_pos (by simpa using hforeign)]
        simp [hforeign, stopped]
      · obtain ⟨t, ht⟩ : ∃ t, ofChar c = .ok t := by
          cases hchar : ofChar c with
          | ok t => exact ⟨t, rfl⟩
          | error e => exact absurd ((ofChar_eq_error_iff hblank hc).mp hchar).1 hforeign
        rw [List.find?_cons_of_neg (by simpa using hforeign), ← @ih [] hcs]
        simp [hforeign, ht, bind_eq_error_iff, pure, Except.pure]

theorem operands_append (ts us : List Token) :
    operands (ts ++ us) = operands ts ++ operands us :=
  List.filterMap_append

/-- **The operands** that a text is split into are its longest runs of operand characters. -/
theorem operands_of_scan (h : scan pending cs = .ok ts)
    (hpending : ∀ c ∈ pending, isOperandChar c = true) :
    operands ts = (((pending.reverse ++ cs).splitOnP fun c => !isOperandChar c).filter
      (· ≠ [])).map String.ofList := by
  have collected : ∀ pending : List Char,
      operands (ofPending pending) = ([pending.reverse].filter (· ≠ [])).map String.ofList := by
    intro pending
    cases pending <;> simp [operands, operand?, ofPending]
  have hkept : ∀ {pending : List Char}, (∀ c ∈ pending, isOperandChar c = true) →
      ∀ c ∈ pending.reverse, (!isOperandChar c) = false := by
    intro pending hpending c hc
    simp [hpending c (List.mem_reverse.mp hc)]
  induction cs generalizing pending ts with
  | nil =>
    obtain rfl := Except.ok.inj h
    rw [List.append_nil, List.splitOnP_eq_singleton (hkept hpending), collected]
  | cons c cs ih =>
    rcases scan_cons_eq_ok_iff.mp h with ⟨hc, h⟩ | ⟨hc, t, us, ht, hus, rfl⟩
    · simpa using ih h (List.forall_mem_cons.mpr ⟨hc, hpending⟩)
    · have mark : operand? t = none := by
        obtain ⟨-, rfl⟩ | ⟨-, rfl⟩ | ⟨op, -, rfl⟩ := ofChar_eq_ok_iff.mp ht <;> rfl
      have rest : operands (t :: us) = operands us := List.filterMap_cons_none mark
      rw [operands_append, rest, collected, ih hus (by simp),
        List.splitOnP_append_cons_of_forall_mem (hkept hpending) c (by simp [hc]),
        List.reverse_nil, List.nil_append, ← List.map_append, ← List.filter_append]
      rfl

/-- **Each operator** is among the tokens as often as it is in the text. -/
theorem count_operator_of_scan (h : scan pending cs = .ok ts) (op : Operator) :
    ts.count (.operator op) = cs.count op.symbol := by
  have collected : ∀ pending : List Char, (ofPending pending).count (.operator op) = 0 := by
    intro pending
    cases pending <;> simp [ofPending]
  induction cs generalizing pending ts with
  | nil =>
    obtain rfl := Except.ok.inj h
    exact collected pending
  | cons c cs ih =>
    rcases scan_cons_eq_ok_iff.mp h with ⟨hc, h⟩ | ⟨hc, t, us, ht, hus, rfl⟩
    · have hne : c ≠ op.symbol := by
        rintro rfl
        simp [isOperandChar_symbol] at hc
      rw [ih h, List.count_cons_of_ne hne]
    · rw [List.count_append, collected, Nat.zero_add, List.count_cons, List.count_cons, ih hus]
      congr 1
      obtain ⟨rfl, rfl⟩ | ⟨rfl, rfl⟩ | ⟨op', rfl, rfl⟩ := ofChar_eq_ok_iff.mp ht
      · cases op <;> rfl
      · cases op <;> rfl
      · cases op <;> cases op' <;> rfl

theorem balanced_ofPending_append {depth : Nat} :
    Balanced depth (ofPending pending ++ ts) ↔ Balanced depth ts := by
  cases pending with
  | nil => rfl
  | cons c cs => cases depth <;> rfl

/-- **The parentheses** among the tokens are in balance if they are in the text. -/
theorem balanced_iff_of_scan {depth : Nat} (h : scan pending cs = .ok ts) :
    Balanced depth ts ↔ Nested depth cs := by
  induction cs generalizing pending ts depth with
  | nil =>
    obtain rfl := Except.ok.inj h
    rw [← List.append_nil (ofPending pending), balanced_ofPending_append, nested_nil]
    rfl
  | cons c cs ih =>
    rcases scan_cons_eq_ok_iff.mp h with ⟨hc, h⟩ | ⟨hc, t, us, ht, hus, rfl⟩
    · rw [nested_cons_of_ne, ih h]
      · rintro rfl
        simp [isOperandChar] at hc
      · rintro rfl
        simp [isOperandChar] at hc
    · rw [balanced_ofPending_append]
      obtain ⟨rfl, rfl⟩ | ⟨rfl, rfl⟩ | ⟨op, rfl, rfl⟩ := ofChar_eq_ok_iff.mp ht
      · rw [nested_open, ← ih hus]
        rfl
      · cases depth with
        | zero => exact iff_of_false id not_nested_close
        | succ depth =>
          rw [nested_close, ← ih hus]
          rfl
      · rw [nested_cons_of_ne (by cases op <;> decide) (by cases op <;> decide), ← ih hus]
        cases depth <;> rfl

/-! ### The tokens of a text -/

variable {s : String}

theorem isBlank_of_mem_filter : ∀ c ∈ s.toList.filter fun c => !Text.isBlank c,
    Text.isBlank c = false := by
  intro c hc
  simpa using (List.mem_filter.mp hc).2

theorem ofText_eq_error_iff {e : FormulaError} : ofText s = .error e ↔
    ∃ c, s.toList.find? (Foreign ·) = some c ∧ e = .unsupportedOperator c := by
  have visible : (fun c => decide ((!Text.isBlank c) = true ∧ decide (Foreign c) = true)) =
      fun c => decide (Foreign c) := by
    funext c
    simp only [decide_eq_true_eq, decide_eq_decide, and_iff_right_iff_imp]
    rintro ⟨hblank, -⟩
    simp [hblank]
  rw [ofText, scan_eq_error_iff isBlank_of_mem_filter, List.find?_filter, visible]

theorem balanced_iff_of_ofText (h : ofText s = .ok ts) : Balanced 0 ts ↔ ¬Mismatched s.toList := by
  have shown : ∀ {c : Char} (cs : List Char), Text.isBlank c = false →
      (cs.filter fun c => !Text.isBlank c).count c = cs.count c := fun cs hc =>
    List.count_filter (by simp [hc])
  have hopen : Text.isBlank '(' = false := by decide
  have hclose : Text.isBlank ')' = false := by decide
  rw [balanced_iff_of_scan h, Nested, Mismatched, shown _ hopen, shown _ hclose, not_or, not_not,
    Nat.zero_add, eq_comm (a := s.toList.count ')')]
  refine and_congr_left fun _ => ?_
  simp only [List.prefix_filter_iff, forall_exists_index, and_imp, not_exists, not_and, Nat.not_lt]
  constructor
  · intro h front hfront
    simpa only [Nat.zero_add, shown _ hopen, shown _ hclose] using h _ front hfront rfl
  · rintro h _ front hfront rfl
    simpa only [Nat.zero_add, shown _ hopen, shown _ hclose] using h front hfront

end Token

/-! ### Rearranging -/

namespace Postfix

open Token (operands operands_append)

variable {held : List Held} {ts output : List Token}

/-- What is taken off the stack down to a parenthesis is a run of operators. -/
theorem untilParen_eq (held : List Held) : ∃ ops : List Operator,
    (untilParen held).1 = ops.map .operator ∧
      held = ops.map .operator ++ (untilParen held).2 := by
  induction held with
  | nil => exact ⟨[], rfl, rfl⟩
  | cons top held ih =>
    cases top with
    | operator op =>
      obtain ⟨ops, hout, hheld⟩ := ih
      refine ⟨op :: ops, by rw [untilParen, hout, List.map_cons], ?_⟩
      rw [untilParen, List.map_cons, List.cons_append, ← hheld]
    | leftParen => exact ⟨[], rfl, rfl⟩

/-- So is what is taken off before an operator. -/
theorem beforeOperator_eq (op : Operator) (held : List Held) : ∃ ops : List Operator,
    (beforeOperator op held).1 = ops.map .operator ∧
      held = ops.map .operator ++ (beforeOperator op held).2 := by
  induction held with
  | nil => exact ⟨[], rfl, rfl⟩
  | cons top held ih =>
    cases top with
    | operator top =>
      rw [beforeOperator]
      split
      · exact ⟨[], rfl, rfl⟩
      · obtain ⟨ops, hout, hheld⟩ := ih
        refine ⟨top :: ops, by rw [hout, List.map_cons], ?_⟩
        rw [List.map_cons, List.cons_append, ← hheld]
    | leftParen => exact ⟨[], rfl, rfl⟩

theorem of_arrange_eq_error {e : FormulaError} (h : arrange held ts = .error e) :
    e = .unbalancedParentheses ∧ ¬Balanced (depth held) ts := by
  induction ts generalizing held e with
  | nil =>
    obtain ⟨-, hdepth, hbelow⟩ := untilParen_spec held
    unfold arrange at h
    split at h
    · simp at h
    · next top below hpair =>
      rw [hpair] at hdepth hbelow
      obtain rfl : top = .leftParen := by simpa using hbelow
      refine ⟨(Except.error.inj h).symm, ?_⟩
      rw [← hdepth, depth_leftParen]
      exact Nat.succ_ne_zero _
  | cons t ts ih =>
    cases t with
    | operand text =>
      rcases bind_eq_error_iff.mp h with h | ⟨_, -, h⟩
      · exact ih h
      · simp [pure, Except.pure] at h
    | operator op =>
      obtain ⟨-, hdepth⟩ := beforeOperator_spec op held
      rcases bind_eq_error_iff.mp h with h | ⟨_, -, h⟩
      · have later := ih h
        rwa [depth_operator, hdepth] at later
      · simp [pure, Except.pure] at h
    | leftParen =>
      have later := ih h
      rwa [depth_leftParen] at later
    | rightParen =>
      obtain ⟨-, hdepth, hbelow⟩ := untilParen_spec held
      unfold arrange at h
      split at h
      · next hpair =>
        rw [hpair] at hdepth
        rw [← hdepth]
        exact ⟨(Except.error.inj h).symm, id⟩
      · next top below hpair =>
        rw [hpair] at hdepth hbelow
        obtain rfl : top = .leftParen := by simpa using hbelow
        rw [← hdepth, depth_leftParen]
        rcases bind_eq_error_iff.mp h with h | ⟨_, -, h⟩
        · exact ih h
        · simp [pure, Except.pure] at h

/-- **Rearranging fails exactly if the parentheses are out of balance.** -/
theorem arrange_eq_error_iff {e : FormulaError} :
    arrange held ts = .error e ↔ e = .unbalancedParentheses ∧ ¬Balanced (depth held) ts := by
  refine ⟨of_arrange_eq_error, ?_⟩
  rintro ⟨rfl, hbalanced⟩
  cases h : arrange held ts with
  | ok output => exact absurd (arrange_spec h).1 hbalanced
  | error e => rw [(of_arrange_eq_error h).1]

theorem operands_map_operator (ops : List Operator) : operands (ops.map .operator) = [] := by
  simp [operands, Token.operand?]

/-- **Rearranging keeps operands and operators,** the operands in their order, and leaves no
parentheses. -/
theorem arrange_conserves (h : arrange held ts = .ok output) :
    operands output = operands ts ∧
      (∀ op, output.count (.operator op) =
        held.count (.operator op) + ts.count (.operator op)) ∧
      ∀ t ∈ output, t ≠ .leftParen ∧ t ≠ .rightParen := by
  have counted : ∀ (ops : List Operator) (op : Operator),
      (ops.map Token.operator).count (.operator op) =
        (ops.map Held.operator).count (.operator op) := by
    intro ops op
    rw [List.count_map_of_injective _ _ fun _ _ h => Token.operator.inj h,
      List.count_map_of_injective _ _ fun _ _ h => Held.operator.inj h]
  have marks : ∀ ops : List Operator, ∀ t ∈ ops.map Token.operator,
      t ≠ .leftParen ∧ t ≠ .rightParen := by
    simp
  induction ts generalizing held output with
  | nil =>
    obtain ⟨ops, hops, hheld⟩ := untilParen_eq held
    unfold arrange at h
    split at h
    · next out hpair =>
      obtain rfl := Except.ok.inj h
      rw [hpair] at hops hheld
      dsimp only at hops hheld
      subst hops hheld
      exact ⟨operands_map_operator ops, fun op => by simp [counted], marks ops⟩
    · simp at h
  | cons t ts ih =>
    cases t with
    | operand text =>
      obtain ⟨tail, htail, h⟩ := bind_eq_ok_iff.mp h
      obtain rfl := Except.ok.inj h
      obtain ⟨hoperands, hcount, hmarks⟩ := ih htail
      refine ⟨congrArg (text :: ·) hoperands, fun op => ?_, ?_⟩
      · simpa using hcount op
      · simpa using hmarks
    | operator op =>
      obtain ⟨ops, hops, hheld⟩ := beforeOperator_eq op held
      obtain ⟨tail, htail, h⟩ := bind_eq_ok_iff.mp h
      obtain rfl := Except.ok.inj h
      obtain ⟨hoperands, hcount, hmarks⟩ := ih htail
      rw [hops]
      refine ⟨?_, fun op' => ?_, List.forall_mem_append.mpr ⟨marks ops, hmarks⟩⟩
      · rw [operands_append, operands_map_operator, hoperands]
        rfl
      · have taken := congrArg (List.count (.operator op')) hheld
        rw [List.count_append] at taken
        rw [List.count_append, counted, hcount, List.count_cons, List.count_cons]
        simp only [beq_iff_eq, Held.operator.injEq, Token.operator.injEq]
        omega
    | leftParen =>
      obtain ⟨hoperands, hcount, hmarks⟩ := ih h
      refine ⟨hoperands, fun op => ?_, hmarks⟩
      simpa using hcount op
    | rightParen =>
      obtain ⟨ops, hops, hheld⟩ := untilParen_eq held
      unfold arrange at h
      split at h
      · simp at h
      · next out top below hpair =>
        obtain ⟨-, -, hbelow⟩ := untilParen_spec held
        rw [hpair] at hops hheld hbelow
        dsimp only at hops hheld
        obtain rfl : top = .leftParen := by simpa using hbelow
        subst hops hheld
        obtain ⟨tail, htail, h⟩ := bind_eq_ok_iff.mp h
        obtain rfl := Except.ok.inj h
        obtain ⟨hoperands, hcount, hmarks⟩ := ih htail
        refine ⟨?_, fun op => ?_, List.forall_mem_append.mpr ⟨marks ops, hmarks⟩⟩
        · rw [operands_append, operands_map_operator, hoperands]
          rfl
        · simp [counted, hcount, Nat.add_assoc]

/-- What a postfix order keeps of the text that it is made from: the operands in their order, which
are those that the text is split into and the longest runs of operand characters in it, and the
operators as often as they are there. -/
structure Conserves (s : String) (output : List Token) : Prop where
  tokens : ∃ ts, Token.ofText s = .ok ts ∧ operands output = operands ts
  operands : operands output = Token.runs s
  operators : ∀ op, output.count (.operator op) = s.toList.count op.symbol
  parentheses : ∀ t ∈ output, t ≠ .leftParen ∧ t ≠ .rightParen

variable {s : String}

theorem ofText_eq_error_iff {e : FormulaError} : ofText s = .error e ↔
    Token.ofText s = .error e ∨
      ∃ ts, Token.ofText s = .ok ts ∧ e = .unbalancedParentheses ∧ Mismatched s.toList := by
  rw [ofText, bind_eq_error_iff]
  refine or_congr_right (exists_congr fun ts => and_congr_right fun hts => ?_)
  rw [ofTokens, arrange_eq_error_iff]
  exact and_congr_right fun _ => not_iff_comm.mp (Token.balanced_iff_of_ofText hts).symm

/-- What is put into postfix order is conserved. -/
theorem conserves_of_ofText (h : ofText s = .ok output) : Conserves s output := by
  obtain ⟨ts, hts, harrange⟩ := bind_eq_ok_iff.mp h
  obtain ⟨hoperands, hcount, hmarks⟩ := arrange_conserves harrange
  have visible : ∀ op : Operator, Text.isBlank op.symbol = false := by
    rintro (_ | _ | _ | _) <;> decide
  refine ⟨⟨ts, hts, hoperands⟩, ?_, fun op => ?_, hmarks⟩
  · rw [hoperands, Token.operands_of_scan hts (by simp), List.reverse_nil, List.nil_append]
    rfl
  · rw [hcount, List.count_nil, Nat.zero_add, Token.count_operator_of_scan hts,
      List.count_filter (by simp [visible])]

end Postfix

/-- The leaves of a tree, from left to right. -/
def Tree.leaves : Tree → List Tree
  | .constant x => [.constant x]
  | .variable name => [.variable name]
  | .binary _ left right => left.leaves ++ right.leaves

/-- The leaves of an expression are its operands in postorder, each taken for what it stands for. -/
theorem Skeleton.Becomes.forall₂_leaves {e : Skeleton} {tree : Tree} (h : e.Becomes tree) :
    List.Forall₂ StandsFor (Token.operands e.postorder) tree.leaves := by
  induction h with
  | operand h =>
    obtain ⟨begins, number⟩ | none := h
    · exact .cons (.constant begins number) .nil
    · exact .cons (.variable none) .nil
  | @binary op left right leftTree rightTree _ _ ihl ihr =>
    have operands : Token.operands (Skeleton.binary op left right).postorder =
        Token.operands left.postorder ++ Token.operands right.postorder := by
      simp [postorder, Token.operands, Token.operand?]
    rw [operands]
    exact List.rel_append ihl ihr

/-- The leaves of a formula, from left to right. -/
def Formula.leaves : Formula → List Tree
  | .blank => []
  | .expression tree => tree.leaves

/-- **The leaves of what is read** are the operands of the text. -/
theorem Formula.forall₂_leaves_of_ofText {s : String} {f : Formula}
    (h : Formula.ofText s = .ok f) : List.Forall₂ StandsFor (Token.runs s) f.leaves := by
  rw [ofText] at h
  split at h
  · next hblank =>
    obtain rfl := Except.ok.inj h
    have nothing := Token.operands_of_scan (Token.ofText_of_isAllBlank hblank) (by simp)
    rw [List.reverse_nil, List.nil_append] at nothing
    rw [Token.runs, ← nothing]
    exact .nil
  · obtain ⟨output, houtput, h⟩ := bind_eq_ok_iff.mp h
    obtain ⟨tree', htree, h⟩ := bind_eq_ok_iff.mp h
    obtain rfl := Except.ok.inj h
    obtain ⟨e, rfl, he⟩ := Tree.ofPostfix_eq_ok_iff.mp htree
    rw [← (Postfix.conserves_of_ofText houtput).operands]
    exact he.forall₂_leaves

namespace Postfix

/-- **The outcomes of putting a text into postfix order.** The first character that belongs in no
formula is reported, whatever the parentheses do. If there is none, parentheses are reported if they
do not match. If they do, there is a postfix order, and it conserves the text. So the leaves of what
is read in the end, if anything is, are the operands of the text from left to right. -/
theorem ofText_outcome (s : String) :
    (∀ c, ofText s = .error (.unsupportedOperator c) ↔
      s.toList.find? (Token.Foreign ·) = some c) ∧
    (ofText s = .error .unbalancedParentheses ↔
      (∀ c ∈ s.toList, ¬Token.Foreign c) ∧ Mismatched s.toList) ∧
    ((∃ output, ofText s = .ok output ∧ Conserves s output) ↔
      (∀ c ∈ s.toList, ¬Token.Foreign c) ∧ ¬Mismatched s.toList) ∧
    ∀ f, Formula.ofText s = .ok f → List.Forall₂ StandsFor (Token.runs s) f.leaves := by
  have scanned : (∀ c ∈ s.toList, ¬Token.Foreign c) ↔ ∃ ts, Token.ofText s = .ok ts := by
    have found := List.find?_eq_none (l := s.toList) (p := (Token.Foreign ·))
    simp only [decide_eq_true_eq] at found
    rw [← found]
    cases hts : Token.ofText s with
    | ok ts =>
      refine iff_of_true (Option.eq_none_iff_forall_ne_some.mpr fun c hc => ?_) ⟨ts, rfl⟩
      exact absurd (hts.symm.trans (Token.ofText_eq_error_iff.mpr ⟨c, hc, rfl⟩)) (by simp)
    | error e =>
      obtain ⟨c, hc, -⟩ := Token.ofText_eq_error_iff.mp hts
      exact iff_of_false (by simp [hc]) (by simp)
  refine ⟨fun c => ?_, ?_, ?_, fun f => Formula.forall₂_leaves_of_ofText⟩
  · rw [ofText_eq_error_iff, Token.ofText_eq_error_iff]
    simp [eq_comm]
  · rw [ofText_eq_error_iff, Token.ofText_eq_error_iff, scanned]
    simp
  · rw [scanned]
    cases houtput : ofText s with
    | ok output =>
      obtain ⟨ts, hts, harrange⟩ := bind_eq_ok_iff.mp houtput
      refine iff_of_true ⟨output, rfl, conserves_of_ofText houtput⟩ ⟨⟨ts, hts⟩, ?_⟩
      exact (Token.balanced_iff_of_ofText hts).mp (arrange_spec harrange).1
    | error e =>
      refine iff_of_false (by simp) ?_
      rintro ⟨⟨ts, hts⟩, hmatched⟩
      rcases ofText_eq_error_iff.mp houtput with herror | ⟨ts, -, -, hmismatched⟩
      · exact absurd (hts.symm.trans herror) (by simp)
      · exact hmatched hmismatched

/-- A foreign character is reported before a parenthesis in front of it. -/
example : ofText "1)+2$" = .error (.unsupportedOperator '$') := rfl

end Postfix

end Quadrille
