import Quadrille.Proofs.Formula.Malformed

/-!
# Folding a postorder

A tree is folded out of tokens in postfix order by a stack of values, and the tokens need not come
from any formula. This module says what comes of each list of tokens there is. If the list is the
postorder of an expression, the result is that expression, with each operand taken for what it
stands for. If it is not, some token cannot be dealt with where it stands, or the values left at the
end are none or too many, and the complaint is that of the first of these.

A stack of values stands for a stack of expressions, and the tokens read so far are the postorders
of these one after the other, the bottom one first (`postorders`). Every step keeps that. The height
of the stack is the surplus of the tokens read so far, so whether a token can be dealt with is
settled by the tokens before it, without a stack (`Offends`).

## Main definitions

* `Skeleton`, `Skeleton.postorder` — an expression whose operands are mere texts, and its postorder
* `StandsFor`, `Skeleton.Becomes` — what an operand and an expression are taken for
* `Offends`, `Inoffensive`, `FirstOffence` — tokens that cannot be dealt with
* `Complaint` — which complaint a list of tokens gives rise to

## Main results

* `Skeleton.foldlM_push_postorder`, `exists_postorders_of_foldlM_push` — what the stack stands for
* `inoffensive_iff`, `firstOffence_iff` — where the fold comes to grief
* `Tree.ofPostfix_eq_iff` — the results and the complaints for every list of tokens
-/

namespace Quadrille

/-! ### Expressions with operands as they are written -/

/-- An expression whose operands have not been looked at. -/
inductive Skeleton where
  | operand (text : String)
  | binary (op : Operator) (left right : Skeleton)
  deriving DecidableEq, Repr

/-- The tokens of an expression, each operator behind its two operands. -/
def Skeleton.postorder : Skeleton → List Token
  | .operand text => [.operand text]
  | .binary op left right => left.postorder ++ (right.postorder ++ [.operator op])

/-- Whether a text begins with a digit or a point. -/
def BeginsLikeNumber (text : String) : Prop :=
  ∃ c ∈ text.toList.head?, c.isDigit = true ∨ c = '.'

/-- What an operand stands for: the number that it writes, if it begins like one, and otherwise the
variable of that name. -/
inductive StandsFor (text : String) : Tree → Prop where
  | constant {x : Float} (begins : BeginsLikeNumber text) (number : Number.ofText? text = some x) :
      StandsFor text (.constant x)
  | variable (none : BeginsLikeNumber text → Number.ofText? text = none) :
      StandsFor text (.variable text)

/-- The tree that an expression becomes when each of its operands is taken for what it stands
for. -/
inductive Skeleton.Becomes : Skeleton → Tree → Prop where
  | operand {text : String} {leaf : Tree} (h : StandsFor text leaf) : Becomes (.operand text) leaf
  | binary (op : Operator) {left right : Skeleton} {leftTree rightTree : Tree}
      (hleft : Becomes left leftTree) (hright : Becomes right rightTree) :
      Becomes (.binary op left right) (.binary op leftTree rightTree)

theorem standsFor_iff {text : String} {leaf : Tree} :
    StandsFor text leaf ↔ Tree.ofOperand text = leaf := by
  have begins : BeginsLikeNumber text ↔
      ∃ c cs, text.toList = c :: cs ∧ (c.isDigit || c == '.') = true := by
    unfold BeginsLikeNumber
    cases text.toList <;> simp
  unfold Tree.ofOperand
  constructor
  · rintro (⟨hbegins, hnumber⟩ | hnone)
    · obtain ⟨c, cs, htext, hc⟩ := begins.mp hbegins
      simp only [htext, hc, if_true, hnumber]
    · split
      · rfl
      · rename_i c cs htext
        split
        · rename_i hc
          simp only [hnone (begins.mpr ⟨c, cs, htext, hc⟩)]
        · rfl
  · split
    · rename_i htext
      rintro rfl
      exact .variable fun h => by simp [htext] at begins; exact absurd h begins
    · rename_i c cs htext
      split
      · rename_i hc
        split
        · rename_i x hx
          rintro rfl
          exact .constant (begins.mpr ⟨c, cs, htext, hc⟩) hx
        · rename_i hx
          rintro rfl
          exact .variable fun _ => hx
      · rename_i hc
        rintro rfl
        refine .variable fun h => ?_
        obtain ⟨c', cs', htext', hc'⟩ := begins.mp h
        obtain ⟨rfl, -⟩ := List.cons.inj (htext.symm.trans htext')
        exact absurd hc' hc

/-! ### What the stack stands for -/

namespace Skeleton

/-- The postorder of an expression puts its tree on top of the values. -/
theorem foldlM_push_postorder {e : Skeleton} {tree : Tree} (h : e.Becomes tree)
    (values : List Tree) (rest : List Token) :
    (e.postorder ++ rest).foldlM Tree.push values = rest.foldlM Tree.push (tree :: values) := by
  induction h generalizing values rest with
  | operand h =>
    simp [postorder, Tree.push, standsFor_iff.mp h, bind, Except.bind]
  | binary op _ _ ihl ihr =>
    simp only [postorder, List.append_assoc, ihl, ihr]
    simp [Tree.push, bind, Except.bind]

/-- The postorders of a stack of expressions, the bottom one first. -/
def postorders (es : List Skeleton) : List Token :=
  es.reverse.flatMap postorder

theorem postorders_cons (e : Skeleton) (es : List Skeleton) :
    postorders (e :: es) = postorders es ++ e.postorder := by
  simp [postorders]

end Skeleton

open Skeleton (postorders postorders_cons Becomes)

/-- A token that can be dealt with is added to the postorders of what the values stand for. -/
theorem exists_postorders_of_push {values values' : List Tree} {t : Token} {es : List Skeleton}
    (hes : List.Forall₂ Becomes es values) (h : Tree.push values t = .ok values') :
    ∃ es', List.Forall₂ Becomes es' values' ∧ postorders es' = postorders es ++ [t] := by
  cases t with
  | operand text =>
    obtain rfl := Except.ok.inj h
    refine ⟨.operand text :: es, .cons (.operand (standsFor_iff.mpr rfl)) hes, ?_⟩
    rw [postorders_cons, Skeleton.postorder]
  | operator op =>
    rcases hes with - | ⟨hright, - | ⟨hleft, hbelow⟩⟩
    case nil => simp [Tree.push] at h
    case cons.nil => simp [Tree.push] at h
    case cons.cons =>
      obtain rfl := Except.ok.inj h
      refine ⟨_, .cons (.binary op hleft hright) hbelow, ?_⟩
      simp only [postorders_cons, Skeleton.postorder, List.append_assoc]
  | leftParen => simp [Tree.push] at h
  | rightParen => simp [Tree.push] at h

/-- **The values stand for expressions** whose postorders are the tokens that have been read. -/
theorem exists_postorders_of_foldlM_push {ts : List Token} {values values' : List Tree}
    {es : List Skeleton} (hes : List.Forall₂ Becomes es values)
    (h : ts.foldlM Tree.push values = .ok values') :
    ∃ es', List.Forall₂ Becomes es' values' ∧ postorders es' = postorders es ++ ts := by
  induction ts generalizing values es with
  | nil =>
    obtain rfl := Except.ok.inj h
    exact ⟨es, hes, (List.append_nil _).symm⟩
  | cons t ts ih =>
    rw [List.foldlM_cons] at h
    obtain ⟨between, hpush, h⟩ := bind_eq_ok_iff.mp h
    obtain ⟨es', hes', hpost⟩ := exists_postorders_of_push hes hpush
    obtain ⟨es'', hes'', hposts⟩ := ih hes' h
    exact ⟨es'', hes'', by rw [hposts, hpost, List.append_assoc, List.singleton_append]⟩

/-! ### Where the fold comes to grief -/

/-- Whether a token cannot be dealt with behind the tokens `before`: a parenthesis nowhere, and an
operator only where at least two operands wait for one. -/
def Offends (before : List Token) : Token → Prop
  | .operand _ => False
  | .operator _ => surplus before < 2
  | .leftParen | .rightParen => True

/-- Whether every token of a list can be dealt with where it stands. -/
def Inoffensive (ts : List Token) : Prop :=
  ∀ before t after, ts = before ++ t :: after → ¬Offends before t

/-- Whether `t` is the first token of a list that cannot be dealt with where it stands. -/
def FirstOffence (ts : List Token) (t : Token) : Prop :=
  ∃ before after, ts = before ++ t :: after ∧ Inoffensive before ∧ Offends before t

/-- The complaint about a token that cannot be dealt with. -/
def Token.complaint : Token → FormulaError
  | .operand _ | .operator _ => .missingOperand
  | .leftParen | .rightParen => .unbalancedParentheses

theorem push_eq_error_iff {before : List Token} {values : List Tree} {t : Token} {e : FormulaError}
    (h : before.foldlM Tree.push [] = .ok values) :
    Tree.push values t = .error e ↔ Offends before t ∧ t.complaint = e := by
  have height : surplus before = values.length := by simpa using (Tree.length_of_foldlM_push h).symm
  cases t with
  | operand text => simp [Tree.push, Offends]
  | operator op =>
    rcases values with - | ⟨right, - | ⟨left, below⟩⟩
    case nil => simp [Tree.push, Offends, height, Token.complaint]
    case cons.nil => simp [Tree.push, Offends, height, Token.complaint]
    case cons.cons =>
      have : ¬surplus before < 2 := by
        rw [height, List.length_cons, List.length_cons]
        omega
      simp [Tree.push, Offends, this]
  | leftParen => simp [Tree.push, Offends, Token.complaint]
  | rightParen => simp [Tree.push, Offends, Token.complaint]

/-- The fold gets to the end unless some token cannot be dealt with. -/
theorem inoffensive_iff {ts : List Token} :
    Inoffensive ts ↔ ∃ values, ts.foldlM Tree.push [] = .ok values := by
  constructor
  · intro h
    cases hfold : ts.foldlM Tree.push [] with
    | ok values => exact ⟨values, rfl⟩
    | error e =>
      obtain ⟨before, t, after, values, hts, hbefore, hpush⟩ := foldlM_eq_error_iff.mp hfold
      exact absurd ((push_eq_error_iff hbefore).mp hpush).1 (h before t after hts)
  · rintro ⟨values, hfold⟩ before t after rfl hoffends
    rw [List.foldlM_append] at hfold
    obtain ⟨between, hbefore, hfold⟩ := bind_eq_ok_iff.mp hfold
    rw [List.foldlM_cons] at hfold
    obtain ⟨_, hpush, -⟩ := bind_eq_ok_iff.mp hfold
    exact absurd (hpush.symm.trans ((push_eq_error_iff hbefore).mpr ⟨hoffends, rfl⟩)) (by simp)

/-- **The fold stops at the first token that cannot be dealt with.** -/
theorem firstOffence_iff {ts : List Token} {e : FormulaError} :
    ts.foldlM Tree.push [] = .error e ↔ ∃ t, FirstOffence ts t ∧ t.complaint = e := by
  rw [foldlM_eq_error_iff]
  constructor
  · rintro ⟨before, t, after, values, hts, hbefore, hpush⟩
    obtain ⟨hoffends, he⟩ := (push_eq_error_iff hbefore).mp hpush
    exact ⟨t, ⟨before, after, hts, inoffensive_iff.mpr ⟨values, hbefore⟩, hoffends⟩, he⟩
  · rintro ⟨t, ⟨before, after, hts, hinoffensive, hoffends⟩, he⟩
    obtain ⟨values, hbefore⟩ := inoffensive_iff.mp hinoffensive
    exact ⟨before, t, after, values, hts, hbefore, (push_eq_error_iff hbefore).mpr ⟨hoffends, he⟩⟩

/-- Once there is a value, there always is one. -/
theorem eq_nil_of_foldlM_push {ts : List Token} (h : ts.foldlM Tree.push [] = .ok []) :
    ts = [] := by
  rcases List.eq_nil_or_concat' ts with rfl | ⟨before, t, rfl⟩
  · rfl
  · rw [List.foldlM_append] at h
    obtain ⟨values, -, h⟩ := bind_eq_ok_iff.mp h
    rw [List.foldlM_cons] at h
    obtain ⟨_, hpush, hnil⟩ := bind_eq_ok_iff.mp h
    obtain rfl := Except.ok.inj hnil
    rcases t with _ | _ | _ | _
    case operator =>
      rcases values with - | ⟨right, - | ⟨left, below⟩⟩ <;> simp [Tree.push] at hpush
    all_goals simp [Tree.push] at hpush

/-! ### Results and complaints -/

/-- The complaint that a list of tokens gives rise to. -/
inductive Complaint (ts : List Token) : FormulaError → Prop where
  /-- The first token that cannot be dealt with is a parenthesis. -/
  | parenthesis {t : Token} (first : FirstOffence ts t) (ht : t = .leftParen ∨ t = .rightParen) :
      Complaint ts .unbalancedParentheses
  /-- The first token that cannot be dealt with is an operator. -/
  | operator {op : Operator} (first : FirstOffence ts (.operator op)) :
      Complaint ts .missingOperand
  /-- There are no tokens. -/
  | nothing (empty : ts = []) : Complaint ts .noOperands
  /-- All tokens can be dealt with, and leave several operands. -/
  | dangling {n : Nat} (inoffensive : Inoffensive ts) (several : 2 ≤ n) (height : surplus ts = n) :
      Complaint ts (.danglingOperands n)

theorem complaint_of_firstOffence {ts : List Token} {t : Token} (h : FirstOffence ts t) :
    Complaint ts t.complaint := by
  obtain ⟨before, after, -, -, hoffends⟩ := id h
  cases t with
  | operand text => exact hoffends.elim
  | operator op => exact .operator h
  | leftParen => exact .parenthesis h (.inl rfl)
  | rightParen => exact .parenthesis h (.inr rfl)

namespace Tree

variable {ts : List Token}

/-- What is made of the values that are left in the end. -/
def ofValues : List Tree → Except FormulaError Tree
  | [] => .error .noOperands
  | [tree] => .ok tree
  | values => .error (.danglingOperands values.length)

theorem ofPostfix_of_foldlM {values : List Tree} (h : ts.foldlM push [] = .ok values) :
    ofPostfix ts = ofValues values := by
  rw [ofPostfix, h]
  rcases values with - | ⟨_, - | ⟨_, _⟩⟩ <;> rfl

theorem ofPostfix_of_firstOffence {t : Token} (h : FirstOffence ts t) :
    ofPostfix ts = .error t.complaint := by
  rw [ofPostfix, firstOffence_iff.mpr ⟨t, h, rfl⟩]
  rfl

theorem ofPostfix_eq_ok_iff {tree : Tree} :
    ofPostfix ts = .ok tree ↔ ∃ e : Skeleton, e.postorder = ts ∧ e.Becomes tree := by
  constructor
  · intro h
    cases hfold : ts.foldlM push [] with
    | error e =>
      obtain ⟨t, hfirst, -⟩ := firstOffence_iff.mp hfold
      simp [ofPostfix_of_firstOffence hfirst] at h
    | ok values =>
      rw [ofPostfix_of_foldlM hfold] at h
      obtain ⟨es, hes, hposts⟩ := exists_postorders_of_foldlM_push .nil hfold
      rcases hes with - | ⟨htree, - | ⟨_, _⟩⟩
      case nil => simp [ofValues] at h
      case cons.nil =>
        obtain rfl := Except.ok.inj h
        exact ⟨_, by simpa [postorders] using hposts, htree⟩
      case cons.cons => simp [ofValues] at h
  · rintro ⟨e, rfl, htree⟩
    have whole := Skeleton.foldlM_push_postorder htree [] []
    rw [List.append_nil, List.foldlM_nil] at whole
    exact ofPostfix_of_foldlM whole

theorem complaint_of_ofPostfix {e : FormulaError} (h : ofPostfix ts = .error e) :
    Complaint ts e := by
  cases hfold : ts.foldlM push [] with
  | error e' =>
    obtain ⟨t, hfirst, -⟩ := firstOffence_iff.mp hfold
    rw [ofPostfix_of_firstOffence hfirst] at h
    obtain rfl := Except.error.inj h
    exact complaint_of_firstOffence hfirst
  | ok values =>
    rw [ofPostfix_of_foldlM hfold] at h
    have height := length_of_foldlM_push hfold
    rcases values with - | ⟨_, - | ⟨_, _⟩⟩
    case nil =>
      obtain rfl := Except.error.inj h
      exact .nothing (eq_nil_of_foldlM_push hfold)
    case cons.nil => simp [ofValues] at h
    case cons.cons =>
      obtain rfl := Except.error.inj h
      exact .dangling (inoffensive_iff.mpr ⟨_, hfold⟩) (by simp) (by simpa using height.symm)

theorem ofPostfix_of_complaint {e : FormulaError} (h : Complaint ts e) :
    ofPostfix ts = .error e := by
  cases h with
  | parenthesis first ht =>
    rw [ofPostfix_of_firstOffence first]
    obtain rfl | rfl := ht <;> rfl
  | operator first => exact ofPostfix_of_firstOffence first
  | nothing empty =>
    subst empty
    rfl
  | @dangling n inoffensive several height =>
    obtain ⟨values, hfold⟩ := inoffensive_iff.mp inoffensive
    have length : values.length = n := by
      have := length_of_foldlM_push hfold
      simp only [List.length_nil] at this
      omega
    subst length
    rw [ofPostfix_of_foldlM hfold]
    rcases values with - | ⟨_, - | ⟨_, _⟩⟩
    case nil => simp at several
    case cons.nil => simp at several
    case cons.cons => rfl

/-- **Folding inverts the postorder.** A list of tokens is folded into a tree exactly if it is the
postorder of an expression that becomes this tree. Otherwise there is a complaint: about the first
token that cannot be dealt with, a parenthesis anywhere or an operator with fewer than two operands
waiting for one; or, if there is no such token, about an empty list, or about the several operands
that are left. -/
theorem ofPostfix_eq_iff (ts : List Token) :
    (∀ tree, ofPostfix ts = .ok tree ↔ ∃ e : Skeleton, e.postorder = ts ∧ e.Becomes tree) ∧
      ∀ e, ofPostfix ts = .error e ↔ Complaint ts e :=
  ⟨fun _ => ofPostfix_eq_ok_iff, fun _ => ⟨complaint_of_ofPostfix, ofPostfix_of_complaint⟩⟩

end Tree

end Quadrille
