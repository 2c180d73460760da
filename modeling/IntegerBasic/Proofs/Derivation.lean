import IntegerBasic.Expr.Grammar
import IntegerBasic.Expr.Parser

/-!
# Derivations

The nonterminals of the grammar are ordered by how tightly they bind.  `Level.atLeast n` is the
nonterminal of the expressions that bind at least as tightly as `n`, in the numbering that the
parser and the printer use for operators.

**Results.**
* `Derives.loosen`: what is derived at a tight level is derived at every looser one.
* `Derives.binary`: one rule for the four arithmetic operations.
* `Derives.exists_of_tokens`: a derivation depends on the tokens alone; other columns on the
  lexemes only mean other columns in the tree.
-/

namespace IntegerBasic

theorem Operator.binaryOp?_eq_some_iff
    {sign : Operator} {op : BinaryOp} :
    sign.binaryOp? = some op ↔
      (sign, op) ∈ [(Operator.plus, BinaryOp.add), (.minus, .subtract), (.star, .multiply),
        (.slash, .divide)] := by
  cases sign <;> cases op <;> simp [Operator.binaryOp?]

namespace Expr

/-- The nonterminal of the expressions that bind at least as tightly as a number says. -/
def Level.atLeast : Nat → Level
  | 0 | 1 => .assign
  | 2 => .additive
  | 3 => .multiplicative
  | 4 => .unary
  | _ + 5 => .primary

namespace Derives

theorem loosen_one
    {strength : Nat} {ls : List Lexeme} {e : Expr}
    (h : Derives (.atLeast (strength + 1)) ls e) :
    Derives (.atLeast strength) ls e := by
  match strength, h with
  | 0, h => exact h
  | 1, h => exact assignOfAdditive h
  | 2, h => exact additiveOfMultiplicative h
  | 3, h => exact multiplicativeOfUnary h
  | 4, h => exact unaryOfPrimary h
  | _ + 5, h => exact h

/-- What binds tightly may stand where less is asked for. -/
theorem loosen
    {floor strength : Nat} {ls : List Lexeme} {e : Expr}
    (hLe : floor ≤ strength)
    (h : Derives (.atLeast strength) ls e) :
    Derives (.atLeast floor) ls e := by
  induction hLe with
  | refl => exact h
  | step _ ih => exact ih (loosen_one h)

theorem loosen_primary
    {ls : List Lexeme} {e : Expr} (floor : Nat)
    (h : Derives .primary ls e) :
    Derives (.atLeast floor) ls e := by
  have hPrimary : Derives (.atLeast (floor + 5)) ls e := h
  exact loosen (Nat.le_add_right floor 5) hPrimary

/-- The rule of the four arithmetic operations: they associate to the left. -/
theorem binary
    {ls rs : List Lexeme} {c : Column} {sign : Operator} {op : BinaryOp} {l r : Expr}
    (hSign : sign.binaryOp? = some op)
    (hl : Derives (.atLeast op.level) ls l)
    (hr : Derives (.atLeast (op.level + 1)) rs r) :
    Derives (.atLeast op.level) (ls ++ ⟨.operator sign, c⟩ :: rs) (.binary c op l r) := by
  rw [Operator.binaryOp?_eq_some_iff] at hSign
  cases op with
  | add => exact additive (by simpa using hSign) hl hr
  | subtract => exact additive (by simpa using hSign) hl hr
  | multiply => exact multiplicative (by simpa using hSign) hl hr
  | divide => exact multiplicative (by simpa using hSign) hl hr

end Derives

@[simp] theorem eraseColumns_integer
    (c : Column) (v : Value) :
    (integer c v).eraseColumns = integer ⟨0, 0⟩ v := by
  rfl

@[simp] theorem eraseColumns_var
    (c : Column) (x : Name) :
    (var c x).eraseColumns = var ⟨0, 0⟩ x := by
  rfl

@[simp] theorem eraseColumns_negation
    (c : Column) (e : Expr) :
    (negation c e).eraseColumns = negation ⟨0, 0⟩ e.eraseColumns := by
  rfl

@[simp] theorem eraseColumns_binary
    (c : Column) (op : BinaryOp) (l r : Expr) :
    (binary c op l r).eraseColumns = binary ⟨0, 0⟩ op l.eraseColumns r.eraseColumns := by
  rfl

@[simp] theorem eraseColumns_assign
    (c : Column) (x : Name) (e : Expr) :
    (assign c x e).eraseColumns = assign ⟨0, 0⟩ x e.eraseColumns := by
  rfl

theorem eq_var_of_eraseColumns
    {e : Expr} {c : Column} {x : Name}
    (h : e.eraseColumns = (var c x).eraseColumns) :
    ∃ d, e = var d x := by
  cases e with
  | var d y => exact ⟨d, by simpa using h⟩
  | integer | negation | binary | assign => simp at h

theorem exists_of_map_token_eq_append_cons
    {all ls rs : List Lexeme} {t : Token} {c : Column}
    (h : all.map Lexeme.token = (ls ++ ⟨t, c⟩ :: rs).map Lexeme.token) :
    ∃ ls' c' rs', all = ls' ++ ⟨t, c'⟩ :: rs' ∧
      ls'.map Lexeme.token = ls.map Lexeme.token ∧
      rs'.map Lexeme.token = rs.map Lexeme.token := by
  rw [List.map_append, List.map_eq_append_iff] at h
  obtain ⟨ls', rest, rfl, hLeft, hRest⟩ := h
  rw [List.map_cons, List.map_eq_cons_iff] at hRest
  obtain ⟨⟨t', c'⟩, rs', rfl, rfl, hRight⟩ := hRest
  exact ⟨ls', c', rs', rfl, hLeft, hRight⟩

/-- The same tokens in other places spell the same tree with other columns. -/
theorem Derives.exists_of_tokens
    {level : Level} {ls : List Lexeme} {e : Expr}
    (h : Derives level ls e) :
    ∀ {all : List Lexeme}, all.map Lexeme.token = ls.map Lexeme.token →
      ∃ e', Derives level all e' ∧ e'.eraseColumns = e.eraseColumns := by
  induction h with
  | assignOfAdditive _ ih =>
      intro all hAll
      obtain ⟨e', hDerives, hErase⟩ := ih hAll
      exact ⟨e', assignOfAdditive hDerives, hErase⟩
  | assign _ _ ihl ihr =>
      intro all hAll
      obtain ⟨ls', c', rs', rfl, hLeft, hRight⟩ := exists_of_map_token_eq_append_cons hAll
      obtain ⟨l', hl, hlErase⟩ := ihl hLeft
      obtain ⟨r', hr, hrErase⟩ := ihr hRight
      obtain ⟨d', rfl⟩ := eq_var_of_eraseColumns hlErase
      exact ⟨_, assign hl hr, by simp [hrErase]⟩
  | additiveOfMultiplicative _ ih =>
      intro all hAll
      obtain ⟨e', hDerives, hErase⟩ := ih hAll
      exact ⟨e', additiveOfMultiplicative hDerives, hErase⟩
  | additive hSign _ _ ihl ihr =>
      intro all hAll
      obtain ⟨ls', c', rs', rfl, hLeft, hRight⟩ := exists_of_map_token_eq_append_cons hAll
      obtain ⟨l', hl, hlErase⟩ := ihl hLeft
      obtain ⟨r', hr, hrErase⟩ := ihr hRight
      exact ⟨_, additive hSign hl hr, by simp [hlErase, hrErase]⟩
  | multiplicativeOfUnary _ ih =>
      intro all hAll
      obtain ⟨e', hDerives, hErase⟩ := ih hAll
      exact ⟨e', multiplicativeOfUnary hDerives, hErase⟩
  | multiplicative hSign _ _ ihl ihr =>
      intro all hAll
      obtain ⟨ls', c', rs', rfl, hLeft, hRight⟩ := exists_of_map_token_eq_append_cons hAll
      obtain ⟨l', hl, hlErase⟩ := ihl hLeft
      obtain ⟨r', hr, hrErase⟩ := ihr hRight
      exact ⟨_, multiplicative hSign hl hr, by simp [hlErase, hrErase]⟩
  | unaryOfPrimary _ ih =>
      intro all hAll
      obtain ⟨e', hDerives, hErase⟩ := ih hAll
      exact ⟨e', unaryOfPrimary hDerives, hErase⟩
  | unary _ ih =>
      intro all hAll
      obtain ⟨⟨t, c'⟩, ls', rfl, rfl, hRest⟩ := List.map_eq_cons_iff.mp hAll
      obtain ⟨e', hDerives, hErase⟩ := ih hRest
      exact ⟨_, unary hDerives, by simp [hErase]⟩
  | name =>
      intro all hAll
      obtain ⟨⟨t, c'⟩, rfl, rfl⟩ := List.map_eq_singleton_iff.mp hAll
      exact ⟨_, name, by simp⟩
  | number hBound hValue =>
      intro all hAll
      obtain ⟨⟨t, c'⟩, rfl, rfl⟩ := List.map_eq_singleton_iff.mp hAll
      exact ⟨_, number hBound hValue, by simp⟩
  | group _ ih =>
      intro all hAll
      obtain ⟨open', c', rest, rfl, hOpen, hRest⟩ := exists_of_map_token_eq_append_cons hAll
      obtain ⟨⟨t, d'⟩, ls', rfl, rfl, hInner⟩ := List.map_eq_cons_iff.mp hOpen
      obtain rfl : rest = [] := by simpa using hRest
      obtain ⟨e', hDerives, hErase⟩ := ih hInner
      exact ⟨e', group hDerives, hErase⟩

end Expr
end IntegerBasic
