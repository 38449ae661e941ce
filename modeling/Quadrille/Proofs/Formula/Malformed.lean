import Mathlib.Algebra.Ring.Int.Defs
import Mathlib.Data.List.Chain
import Quadrille.Proofs.Formula.Reading

/-!
# Malformed formulas

An expression is an operand, an expression in parentheses, or two expressions with an operator
between them. Reading a formula never asks which of these comes next. It checks two things only,
that parentheses have partners and that the stack of values comes out with one value on it, and the
question is which malformed formulas get past these two.

Three things together make an expression: parentheses have partners, there is one operand more than
operators, and no two operands or groups are side by side. The first two are what is checked, since
every operator takes one value off the stack on balance. Given the third as well, there is an
operator between any two neighbouring operands, so there is one in each gap and none before the
first operand or behind the last. Then operands and operators alternate, and with the parentheses in
balance that is all there is to an expression.

The third is not checked. Where two groups are side by side the count gives most of what is
malformed away, such as `(1)(2)`, but not all of it: in `(1)(2)+` the operator comes too late, and
the formula is read as `1+2`.

## Main definitions

* `Derivable` — the tokens of an expression
* `Apart` — no two operands or groups are side by side
* `Alternates`, `Balanced`, `surplus` — what makes the tokens of an expression, and what is counted

## Main results

* `Apart.surplus_le` — there is at most one operand more than operators, and then they alternate
* `derivable_of_alternates` — an alternation with balanced parentheses is an expression
* `derivable_iff` — the three things that make an expression
* `Derivable.exists_derivation` — every expression has a derivation in arithmetic notation
* `Formula.refuses_malformed` — what is read as an expression counts like one, and it is one unless
  two operands or groups are side by side
* `Formula.reads_groups_side_by_side` — which cannot be left out
-/

namespace Quadrille

/-- The tokens of an expression: an operand, an expression in parentheses, or two expressions with
an operator between them. -/
inductive Derivable : List Token → Prop where
  | operand (text : String) : Derivable [.operand text]
  | parentheses {ts : List Token} (inner : Derivable ts) :
      Derivable (.leftParen :: (ts ++ [.rightParen]))
  | binary {ts us : List Token} (left : Derivable ts) (op : Operator) (right : Derivable us) :
      Derivable (ts ++ .operator op :: us)

namespace Token

/-- Whether an operand or a group begins with a token. -/
def Begins : Token → Prop
  | .operand _ | .leftParen => True
  | .operator _ | .rightParen => False

/-- Whether an operand or a group ends with a token. -/
def Ends : Token → Prop
  | .operand _ | .rightParen => True
  | .operator _ | .leftParen => False

/-- What a token adds to the surplus of operands over operators. -/
def weight : Token → Int
  | .operand _ => 1
  | .operator _ => -1
  | .leftParen | .rightParen => 0

end Token

/-- No two operands or groups are side by side. -/
def Apart (ts : List Token) : Prop :=
  ts.IsChain fun t u => t.Ends → ¬u.Begins

/-- By how many the operands outnumber the operators. -/
def surplus (ts : List Token) : Int :=
  (ts.map Token.weight).sum

/-- Operands and operators take turns, with parentheses opening before operands and closing behind
them only. The flag says whether it is an operand's turn. -/
def Alternates : (due : Bool) → List Token → Prop
  | due, [] => due = false
  | true, .operand _ :: ts => Alternates false ts
  | true, .leftParen :: ts => Alternates true ts
  | false, .operator _ :: ts => Alternates true ts
  | false, .rightParen :: ts => Alternates false ts
  | true, .operator _ :: _ | true, .rightParen :: _ | false, .operand _ :: _
  | false, .leftParen :: _ => False

/-- Every parenthesis has its partner, given how many have been opened before. -/
def Balanced : (depth : Nat) → List Token → Prop
  | depth, [] => depth = 0
  | depth, .leftParen :: ts => Balanced (depth + 1) ts
  | 0, .rightParen :: _ => False
  | depth + 1, .rightParen :: ts => Balanced depth ts
  | depth, .operand _ :: ts | depth, .operator _ :: ts => Balanced depth ts

/-! ### Counting -/

theorem surplus_cons (t : Token) (ts : List Token) :
    surplus (t :: ts) = t.weight + surplus ts := by
  rw [surplus, List.map_cons, List.sum_cons, surplus]

theorem surplus_append (ts us : List Token) : surplus (ts ++ us) = surplus ts + surplus us := by
  rw [surplus, List.map_append, List.sum_append, surplus, surplus]

theorem apart_cons {t : Token} {ts : List Token} :
    Apart (t :: ts) ↔ (t.Ends → ∀ u ∈ ts.head?, ¬u.Begins) ∧ Apart ts := by
  rw [Apart, List.isChain_cons]
  exact and_congr_left fun _ => ⟨fun h ht u hu => h u hu ht, fun h u hu ht => h ht u hu⟩

/-- **The surplus of operands is one at most,** and nothing where it is an operator's turn. If it is
as much as that, operands and operators alternate. -/
theorem Apart.surplus_le {ts : List Token} (h : Apart ts) (due : Bool)
    (hdue : due = false → ∀ u ∈ ts.head?, ¬u.Begins) :
    surplus ts ≤ due.toNat ∧ (surplus ts = due.toNat → Alternates due ts) := by
  induction ts generalizing due with
  | nil => cases due <;> simp [surplus, Alternates]
  | cons t ts ih =>
    obtain ⟨hnext, hts⟩ := apart_cons.mp h
    rw [surplus_cons]
    cases t with
    | operand text =>
      obtain ⟨hle, halt⟩ := ih hts false fun _ => hnext trivial
      cases due with
      | false => exact absurd trivial (hdue rfl _ rfl)
      | true =>
        simp only [Token.weight, Bool.toNat_true, Bool.toNat_false] at hle halt ⊢
        exact ⟨by omega, fun heq => halt (by omega)⟩
    | leftParen =>
      obtain ⟨hle, halt⟩ := ih hts true (by simp)
      cases due with
      | false => exact absurd trivial (hdue rfl _ rfl)
      | true =>
        simp only [Token.weight, Bool.toNat_true] at hle halt ⊢
        exact ⟨by omega, fun heq => halt (by omega)⟩
    | rightParen =>
      obtain ⟨hle, halt⟩ := ih hts false fun _ => hnext trivial
      simp only [Token.weight, Bool.toNat_false] at hle halt ⊢
      cases due with
      | false => exact ⟨by simpa using hle, fun heq => halt (by simpa using heq)⟩
      | true => exact ⟨by simp; omega, fun heq => absurd heq (by simp; omega)⟩
    | operator op =>
      obtain ⟨hle, halt⟩ := ih hts true (by simp)
      simp only [Token.weight, Bool.toNat_true] at hle halt ⊢
      cases due with
      | false => exact ⟨by simp; omega, fun heq => halt (by simp at heq; omega)⟩
      | true => exact ⟨by simp; omega, fun heq => absurd heq (by simp; omega)⟩

theorem Alternates.apart {due : Bool} {ts : List Token} (h : Alternates due ts) :
    Apart ts ∧ (due = false → ∀ u ∈ ts.head?, ¬u.Begins) := by
  induction ts generalizing due with
  | nil => simp [Apart]
  | cons t ts ih =>
    rw [apart_cons]
    cases due <;> cases t <;> simp only [Alternates] at h <;>
      obtain ⟨hts, hnext⟩ := ih h <;> simp_all [Token.Ends, Token.Begins]

/-! ### Expressions -/

/-- Where an expression stops: at the end, or at the parenthesis that closes the group that it is
in. -/
inductive Stops : (depth : Nat) → List Token → Prop where
  | done : Stops 0 []
  | close {depth : Nat} {ts : List Token} (alternates : Alternates false ts)
      (balanced : Balanced depth ts) : Stops (depth + 1) (.rightParen :: ts)

/-- An alternation that begins with an operand begins with an expression, up to where it stops. -/
theorem exists_derivable_append {ts : List Token} {depth : Nat} (ha : Alternates true ts)
    (hb : Balanced depth ts) : ∃ e rest, ts = e ++ rest ∧ Derivable e ∧ Stops depth rest := by
  induction hn : ts.length using Nat.strong_induction_on generalizing ts depth with
  | _ n ih =>
    subst hn
    -- an expression that has been found is the whole or the left operand of a longer one
    have extend : ∀ {depth : Nat} {e us : List Token}, Derivable e → Alternates false us →
        Balanced depth us → us.length < ts.length →
          ∃ e' rest, e ++ us = e' ++ rest ∧ Derivable e' ∧ Stops depth rest := by
      intro depth e us he ha hb hlt
      rcases us with - | ⟨_ | op | _ | _, us⟩
      case nil =>
        obtain rfl : depth = 0 := hb
        exact ⟨e, [], rfl, he, .done⟩
      case cons.operand => exact ha.elim
      case cons.operator =>
        obtain ⟨right, rest, rfl, hright, hstops⟩ :=
          ih us.length (Nat.lt_of_succ_lt hlt) ha hb rfl
        exact ⟨e ++ .operator op :: right, rest, by simp, .binary he op hright, hstops⟩
      case cons.leftParen => exact ha.elim
      case cons.rightParen =>
        cases depth with
        | zero => exact hb.elim
        | succ depth => exact ⟨e, _, rfl, he, .close ha hb⟩
    rcases ts with - | ⟨text | op | _ | _, ts⟩
    case nil => simp [Alternates] at ha
    case cons.operand => exact extend (.operand text) ha hb (Nat.lt_succ_self _)
    case cons.operator => exact ha.elim
    case cons.leftParen =>
      have hinside : Alternates true ts := ha
      have hdepth : Balanced (depth + 1) ts := hb
      obtain ⟨inner, rest, rfl, hinner, hstops⟩ := ih _ (Nat.lt_succ_self _) hinside hdepth rfl
      cases hstops with
      | close hrest hbelow =>
        obtain ⟨e, rest, heq, he, hstops⟩ :=
          extend (.parentheses hinner) hrest hbelow (by simp; omega)
        exact ⟨e, rest, by rw [← heq]; simp, he, hstops⟩
    case cons.rightParen => exact ha.elim

/-- **An alternation of operands and operators is an expression,** if the parentheses are in
balance. -/
theorem derivable_of_alternates {ts : List Token} (ha : Alternates true ts)
    (hb : Balanced 0 ts) : Derivable ts := by
  obtain ⟨e, rest, rfl, he, hstops⟩ := exists_derivable_append ha hb
  cases hstops with
  | done => rwa [List.append_nil]

namespace Derivable

variable {ts us : List Token}

theorem alternates_append (h : Derivable ts) (hus : Alternates false us) :
    Alternates true (ts ++ us) := by
  induction h generalizing us with
  | operand text => exact hus
  | @parentheses inner _ ih =>
    have closing : Alternates true (inner ++ .rightParen :: us) := ih hus
    simpa [Alternates] using closing
  | @binary left right _ op _ ihl ihr =>
    have whole : Alternates true (left ++ .operator op :: (right ++ us)) := ihl (ihr hus)
    simpa using whole

/-- In an expression no two operands or groups are side by side. -/
theorem apart (h : Derivable ts) : Apart ts := by
  have halternates : Alternates true (ts ++ []) := h.alternates_append rfl
  rw [List.append_nil] at halternates
  exact halternates.apart.1

theorem balanced_append {depth : Nat} (h : Derivable ts) (hus : Balanced depth us) :
    Balanced depth (ts ++ us) := by
  induction h generalizing us depth with
  | operand text => exact hus
  | @parentheses inner _ ih =>
    have closing : Balanced (depth + 1) (inner ++ .rightParen :: us) := ih hus
    simpa [Balanced] using closing
  | @binary left right _ op _ ihl ihr =>
    have whole : Balanced depth (left ++ .operator op :: (right ++ us)) := ihl (ihr hus)
    simpa using whole

/-- In an expression every parenthesis has its partner. -/
theorem balanced (h : Derivable ts) : Balanced 0 ts := by
  have hall : Balanced 0 (ts ++ []) := h.balanced_append rfl
  rwa [List.append_nil] at hall

/-- An expression has one operand more than operators. -/
theorem surplus_eq_one (h : Derivable ts) : surplus ts = 1 := by
  induction h with
  | operand text => rfl
  | parentheses _ ih =>
    rw [surplus_cons, surplus_append, ih]
    rfl
  | binary _ op _ ihl ihr =>
    rw [surplus_append, surplus_cons, ihl, ihr, Token.weight]
    rfl

end Derivable

/-- **What makes an expression.** Three things do together: parentheses have partners, there is one
operand more than operators, and no two operands or groups are side by side. -/
theorem derivable_iff {ts : List Token} :
    Derivable ts ↔ Balanced 0 ts ∧ surplus ts = 1 ∧ Apart ts := by
  refine ⟨fun h => ⟨h.balanced, h.surplus_eq_one, h.apart⟩, ?_⟩
  rintro ⟨hbalanced, hsurplus, hapart⟩
  exact derivable_of_alternates ((hapart.surplus_le true (by simp)).2 hsurplus) hbalanced

/-! ### Derivations -/

namespace Derivation

theorem exists_product {op : Operator} (h : op = .multiply ∨ op = .divide)
    (left : Derivation .product) : ∀ right : Derivation .product,
      ∃ d : Derivation .product, d.tokens = left.tokens ++ .operator op :: right.tokens
  | .ofFactor f => ⟨.product op h left f, rfl⟩
  | .product op' h' inner f => by
    obtain ⟨d, hd⟩ := exists_product h left inner
    exact ⟨.product op' h' d f, by simp [tokens, hd]⟩

/-- Multiplying two sums without putting parentheses around them multiplies the last product of the
one by the first product of the other. -/
theorem exists_sum_of_multiply {op : Operator} (h : op = .multiply ∨ op = .divide)
    (left : Derivation .sum) : ∀ right : Derivation .sum,
      ∃ d : Derivation .sum, d.tokens = left.tokens ++ .operator op :: right.tokens
  | .ofProduct q =>
    match left with
    | .ofProduct p => by
      obtain ⟨d, hd⟩ := exists_product h p q
      exact ⟨.ofProduct d, hd⟩
    | .sum op' h' inner p => by
      obtain ⟨d, hd⟩ := exists_product h p q
      exact ⟨.sum op' h' inner d, by simp [tokens, hd]⟩
  | .sum op' h' inner q => by
    obtain ⟨d, hd⟩ := exists_sum_of_multiply h left inner
    exact ⟨.sum op' h' d q, by simp [tokens, hd]⟩

theorem exists_sum_of_add {op : Operator} (h : op = .add ∨ op = .subtract)
    (left : Derivation .sum) : ∀ right : Derivation .sum,
      ∃ d : Derivation .sum, d.tokens = left.tokens ++ .operator op :: right.tokens
  | .ofProduct q => ⟨.sum op h left q, rfl⟩
  | .sum op' h' inner q => by
    obtain ⟨d, hd⟩ := exists_sum_of_add h left inner
    exact ⟨.sum op' h' d q, by simp [tokens, hd]⟩

end Derivation

/-- **Every expression has a derivation in arithmetic notation,** if its operands can be written. -/
theorem Derivable.exists_derivation {ts : List Token} (h : Derivable ts)
    (hts : ∀ text, .operand text ∈ ts → ∃ o : Operand, o.text = text) :
    ∃ d : Derivation .sum, d.tokens = ts := by
  induction h with
  | operand text =>
    obtain ⟨o, rfl⟩ := hts text List.mem_cons_self
    exact ⟨.ofProduct (.ofFactor (.operand o)), rfl⟩
  | parentheses _ ih =>
    obtain ⟨d, rfl⟩ := ih fun text htext => hts text (by simp [htext])
    exact ⟨.ofProduct (.ofFactor (.parentheses d)), rfl⟩
  | binary _ op _ ihl ihr =>
    obtain ⟨left, rfl⟩ := ihl fun text htext => hts text (by simp [htext])
    obtain ⟨right, rfl⟩ := ihr fun text htext => hts text (by simp [htext])
    cases op with
    | add => exact Derivation.exists_sum_of_add (.inl rfl) left right
    | subtract => exact Derivation.exists_sum_of_add (.inr rfl) left right
    | multiply => exact Derivation.exists_sum_of_multiply (.inl rfl) left right
    | divide => exact Derivation.exists_sum_of_multiply (.inr rfl) left right

/-! ### What the machines count -/

namespace Postfix

/-- How many parentheses wait for their partners. -/
def depth (held : List Held) : Nat :=
  held.count .leftParen

/-- What the waiting operators will add to the surplus. -/
def heldSurplus (held : List Held) : Int :=
  -(held.countP (· != .leftParen) : Int)

theorem depth_operator (op : Operator) (held : List Held) :
    depth (.operator op :: held) = depth held := by
  simp [depth]

theorem depth_leftParen (held : List Held) : depth (.leftParen :: held) = depth held + 1 := by
  simp [depth]

theorem heldSurplus_operator (op : Operator) (held : List Held) :
    heldSurplus (.operator op :: held) = heldSurplus held - 1 := by
  rw [heldSurplus, List.countP_cons_of_pos (by rfl), heldSurplus]
  omega

theorem heldSurplus_leftParen (held : List Held) :
    heldSurplus (.leftParen :: held) = heldSurplus held := by
  rw [heldSurplus, List.countP_cons_of_neg (by simp), heldSurplus]

/-- Taking operators off the stack moves them to the output, and stops at a parenthesis or at the
bottom. -/
theorem untilParen_spec (held : List Held) :
    surplus (untilParen held).1 + heldSurplus (untilParen held).2 = heldSurplus held ∧
      depth (untilParen held).2 = depth held ∧
      ((untilParen held).2 = [] ∨ ∃ below, (untilParen held).2 = .leftParen :: below) := by
  induction held with
  | nil => simp [untilParen, surplus]
  | cons top held ih =>
    cases top with
    | operator op =>
      obtain ⟨hsurplus, hdepth, hbelow⟩ := ih
      refine ⟨?_, ?_, hbelow⟩
      · rw [heldSurplus_operator, ← hsurplus]
        simp only [untilParen, surplus_cons, Token.weight]
        omega
      · rw [untilParen, hdepth, depth_operator]
    | leftParen => simp [untilParen, surplus]

theorem beforeOperator_spec (op : Operator) (held : List Held) :
    surplus (beforeOperator op held).1 + heldSurplus (beforeOperator op held).2 =
        heldSurplus held ∧
      depth (beforeOperator op held).2 = depth held := by
  induction held with
  | nil => simp [beforeOperator, surplus]
  | cons top held ih =>
    cases top with
    | operator top =>
      obtain ⟨hsurplus, hdepth⟩ := ih
      rw [beforeOperator]
      split
      · simp [surplus]
      · refine ⟨?_, ?_⟩
        · rw [heldSurplus_operator, ← hsurplus]
          simp only [surplus_cons, Token.weight]
          omega
        · rw [hdepth, depth_operator]
    | leftParen => simp [beforeOperator, surplus]

/-- **Rearranging checks the parentheses and keeps the surplus.** -/
theorem arrange_spec {held : List Held} {ts output : List Token}
    (h : arrange held ts = .ok output) :
    Balanced (depth held) ts ∧ surplus output = heldSurplus held + surplus ts := by
  induction ts generalizing held output with
  | nil =>
    obtain ⟨hsurplus, hdepth, -⟩ := untilParen_spec held
    unfold arrange at h
    split at h
    · next out hout =>
      obtain rfl := Except.ok.inj h
      rw [hout] at hsurplus hdepth
      refine ⟨hdepth.symm, ?_⟩
      rw [← hsurplus]
      simp [heldSurplus, surplus]
    · simp at h
  | cons t ts ih =>
    cases t with
    | operand text =>
      obtain ⟨tail, htail, h⟩ := bind_eq_ok_iff.mp h
      obtain rfl := Except.ok.inj h
      obtain ⟨hbalanced, hsurplus⟩ := ih htail
      refine ⟨hbalanced, ?_⟩
      rw [surplus_cons, surplus_cons, hsurplus]
      omega
    | operator op =>
      obtain ⟨hout, hdepth⟩ := beforeOperator_spec op held
      obtain ⟨tail, htail, h⟩ := bind_eq_ok_iff.mp h
      obtain rfl := Except.ok.inj h
      obtain ⟨hbalanced, hsurplus⟩ := ih htail
      rw [depth_operator, hdepth] at hbalanced
      refine ⟨hbalanced, ?_⟩
      rw [surplus_append, hsurplus, heldSurplus_operator, surplus_cons, ← hout, Token.weight]
      omega
    | leftParen =>
      obtain ⟨hbalanced, hsurplus⟩ := ih h
      rw [depth_leftParen] at hbalanced
      refine ⟨hbalanced, ?_⟩
      rw [hsurplus, heldSurplus_leftParen, surplus_cons, Token.weight, Int.zero_add]
    | rightParen =>
      obtain ⟨hout, hdepth, hbelow⟩ := untilParen_spec held
      unfold arrange at h
      split at h
      · simp at h
      · next out top below hpair =>
        rw [hpair] at hout hdepth hbelow
        obtain ⟨tail, htail, h⟩ := bind_eq_ok_iff.mp h
        obtain rfl := Except.ok.inj h
        obtain ⟨hbalanced, hsurplus⟩ := ih htail
        obtain rfl : top = .leftParen := by simpa using hbelow
        refine ⟨?_, ?_⟩
        · rw [← hdepth, depth_leftParen]
          exact hbalanced
        · have hout : surplus out + heldSurplus below = heldSurplus held := by
            rw [← hout, heldSurplus_leftParen]
          rw [surplus_append, hsurplus, surplus_cons, ← hout, Token.weight]
          omega

end Postfix

/-- Each operand adds a value and each operator takes one away. -/
theorem Tree.length_of_foldlM_push {ts : List Token} {values rest : List Tree}
    (h : ts.foldlM push values = .ok rest) : (rest.length : Int) = values.length + surplus ts := by
  induction ts generalizing values with
  | nil =>
    obtain rfl := Except.ok.inj h
    simp [surplus]
  | cons t ts ih =>
    rw [List.foldlM_cons] at h
    obtain ⟨values', hpush, h⟩ := bind_eq_ok_iff.mp h
    rw [ih h, surplus_cons]
    cases t with
    | operand text =>
      obtain rfl := Except.ok.inj hpush
      simp only [Token.weight, List.length_cons]
      omega
    | operator op =>
      rcases values with - | ⟨right, - | ⟨left, below⟩⟩
      case nil => simp [push] at hpush
      case cons.nil => simp [push] at hpush
      case cons.cons =>
        obtain rfl := Except.ok.inj hpush
        simp only [Token.weight, List.length_cons]
        omega
    | leftParen => simp [push] at hpush
    | rightParen => simp [push] at hpush

/-! ### Reading -/

/-- Every operand of a text can be written. -/
theorem Token.exists_operand_of_mem_scan {pending cs : List Char} {ts : List Token}
    (h : scan pending cs = .ok ts) (hpending : ∀ c ∈ pending, isOperandChar c = true)
    {text : String} (htext : .operand text ∈ ts) : ∃ o : Operand, o.text = text := by
  have hcollected : ∀ {pending : List Char}, (∀ c ∈ pending, isOperandChar c = true) →
      .operand text ∈ ofPending pending → ∃ o : Operand, o.text = text := by
    intro pending hpending hmem
    rcases pending with - | ⟨c, cs⟩
    · simp [ofPending] at hmem
    · obtain rfl := Token.operand.inj (List.mem_singleton.mp hmem)
      refine ⟨⟨String.ofList (c :: cs).reverse, ?_, fun d hd => ?_⟩, rfl⟩
      · rw [String.toList_ofList]
        simp
      rw [String.toList_ofList, List.mem_reverse] at hd
      simpa [isOperandChar] using hpending d hd
  induction cs generalizing pending ts with
  | nil =>
    obtain rfl := Except.ok.inj h
    exact hcollected hpending htext
  | cons c cs ih =>
    rw [scan] at h
    split at h
    · next hc => exact ih h (List.forall_mem_cons.mpr ⟨hc, hpending⟩) htext
    · obtain ⟨t, ht, h⟩ := bind_eq_ok_iff.mp h
      obtain ⟨rest, hrest, h⟩ := bind_eq_ok_iff.mp h
      obtain rfl := Except.ok.inj h
      rcases List.mem_append.mp htext with hmem | hmem
      · exact hcollected hpending hmem
      · rcases List.mem_cons.mp hmem with rfl | hmem
        · rw [ofChar] at ht
          split at ht
          · simp at ht
          · split at ht
            · simp at ht
            · split at ht <;> simp at ht
        · exact ih hrest (by simp) hmem

namespace Formula

variable {s : String} {ts : List Token} {tree : Tree}

/-- What is read as an expression has balanced parentheses and one operand more than operators. -/
theorem balanced_of_ofText_eq (h : Formula.ofText s = .ok (.expression tree)) :
    ∃ ts, Token.ofText s = .ok ts ∧ Balanced 0 ts ∧ surplus ts = 1 := by
  rw [ofText] at h
  split at h
  · simp at h
  · obtain ⟨output, houtput, h⟩ := bind_eq_ok_iff.mp h
    obtain ⟨ts, hts, harrange⟩ := bind_eq_ok_iff.mp houtput
    obtain ⟨hbalanced, hsurplus⟩ := Postfix.arrange_spec harrange
    obtain ⟨tree', htree, -⟩ := bind_eq_ok_iff.mp h
    obtain ⟨values, hvalues, hsingle⟩ := bind_eq_ok_iff.mp htree
    have hlength := Tree.length_of_foldlM_push hvalues
    refine ⟨ts, hts, hbalanced, ?_⟩
    have hone : values.length = 1 := by
      rcases values with - | ⟨value, - | ⟨_, _⟩⟩
      · simp [throw, throwThe, MonadExceptOf.throw] at hsingle
      · rfl
      · simp [throw, throwThe, MonadExceptOf.throw] at hsingle
    rw [hsurplus, hone] at hlength
    simpa [Postfix.heldSurplus] using hlength.symm

/-- A text that is not blank is read as an expression or not at all. -/
theorem ne_blank_of_isAllBlank_eq_false (hblank : Text.isAllBlank s = false) :
    Formula.ofText s ≠ .ok .blank := by
  intro hread
  rw [ofText, hblank] at hread
  obtain ⟨_, -, hread⟩ := bind_eq_ok_iff.mp hread
  obtain ⟨_, -, hread⟩ := bind_eq_ok_iff.mp hread
  simp [pure, Except.pure] at hread

/-- **Every expression is read,** as the tree of a derivation that it has. -/
theorem exists_derivation_of_derivable (hts : Token.ofText s = .ok ts) (h : Derivable ts) :
    ∃ d : Derivation .sum, d.tokens = ts ∧ Formula.ofText s = .ok (.expression d.tree) := by
  obtain ⟨d, rfl⟩ := h.exists_derivation fun text htext =>
    Token.exists_operand_of_mem_scan hts (by simp) htext
  exact ⟨d, rfl, Derivation.ofText_eq_of_tokens hts⟩

/-- **A malformed formula is not read,** if the count gives it away or no two operands or groups are
side by side. What is read as an expression has balanced parentheses and one operand more than
operators, and it is an expression unless something is side by side. A text that is not blank is
refused where any of this fails, so `()`, `1+` and `2(3+4)` are. In an expression all of it holds,
and expressions are read. -/
theorem refuses_malformed (s : String) :
    (∀ tree, Formula.ofText s = .ok (.expression tree) →
      ∃ ts, Token.ofText s = .ok ts ∧ Balanced 0 ts ∧ surplus ts = 1 ∧
        (Apart ts → Derivable ts)) ∧
    (Text.isAllBlank s = false →
      (∀ ts, Token.ofText s = .ok ts →
        ¬Balanced 0 ts ∨ surplus ts ≠ 1 ∨ Apart ts ∧ ¬Derivable ts) →
          ∃ e, Formula.ofText s = .error e) ∧
    ∀ ts, Token.ofText s = .ok ts → Derivable ts →
      (Balanced 0 ts ∧ surplus ts = 1 ∧ Apart ts) ∧
      ∃ d : Derivation .sum, d.tokens = ts ∧ Formula.ofText s = .ok (.expression d.tree) := by
  have hread : ∀ tree, Formula.ofText s = .ok (.expression tree) →
      ∃ ts, Token.ofText s = .ok ts ∧ Balanced 0 ts ∧ surplus ts = 1 ∧
        (Apart ts → Derivable ts) := fun tree h => by
    obtain ⟨ts, hts, hbalanced, hsurplus⟩ := balanced_of_ofText_eq h
    exact ⟨ts, hts, hbalanced, hsurplus, fun hapart =>
      derivable_iff.mpr ⟨hbalanced, hsurplus, hapart⟩⟩
  refine ⟨hread, fun hblank hts => ?_, fun ts hts h =>
    ⟨derivable_iff.mp h, exists_derivation_of_derivable hts h⟩⟩
  rcases hresult : Formula.ofText s with e | (_ | tree)
  · exact ⟨e, rfl⟩
  · exact absurd hresult (ne_blank_of_isAllBlank_eq_false hblank)
  · obtain ⟨ts, htokens, hbalanced, hsurplus, hderivable⟩ := hread tree hresult
    obtain hnot | hnot | ⟨hapart, hnot⟩ := hts ts htokens
    · exact absurd hbalanced hnot
    · exact absurd hsurplus hnot
    · exact absurd (hderivable hapart) hnot

/-- Two groups side by side and an operator behind them are no expression, but they are read as the
expression with the operator between them. -/
theorem reads_groups_side_by_side :
    Text.isAllBlank "(1)(2)+" = false ∧
    Token.ofText "(1)(2)+" = .ok [.leftParen, .operand "1", .rightParen, .leftParen, .operand "2",
      .rightParen, .operator .add] ∧
    ¬Derivable [.leftParen, .operand "1", .rightParen, .leftParen, .operand "2", .rightParen,
      .operator .add] ∧
    Formula.ofText "(1)(2)+" =
      .ok (.expression (.binary .add (Tree.ofOperand "1") (Tree.ofOperand "2"))) := by
  refine ⟨by decide, rfl, fun h => ?_, rfl⟩
  have hapart := h.apart
  simp [Apart, Token.Ends, Token.Begins] at hapart

end Formula

end Quadrille
