import IntegerBasic.Proofs.Rendering

/-!
# The tokens of a written expression

**Definitions.**  `SpellsAt floor ts e` says that the tokens spell the expression where one is
required that binds at least as tightly as `floor`.  `tokenCount` is the number of tokens that the
printer writes for an expression.

**Results.**
* `spellsAt_render`: the tokens of the text spell the expression: the parentheses that the printer
  writes are enough.
* `length_significant_render_le`: nothing shorter spells it: there is no parenthesis to spare.
-/

namespace IntegerBasic
namespace Expr

/-- The tokens spell the tree, columns aside, where at least the level `floor` is required. -/
def SpellsAt (floor : Nat) (ts : List Token) (e : Expr) : Prop :=
  ∃ ls e', ls.map Lexeme.token = ts ∧ Derives (.atLeast floor) ls e' ∧
    e'.eraseColumns = e.eraseColumns

namespace SpellsAt

variable {floor : Nat} {ts us : List Token} {e l r : Expr} {c : Column}

theorem loosen
    {strength : Nat}
    (hLe : floor ≤ strength)
    (h : SpellsAt strength ts e) :
    SpellsAt floor ts e := by
  obtain ⟨ls, e', hTokens, hDerives, hErase⟩ := h
  exact ⟨ls, e', hTokens, hDerives.loosen hLe, hErase⟩

theorem name
    (x : Name) :
    SpellsAt 5 [.ident x] (var c x) :=
  ⟨[⟨.ident x, c⟩], var c x, rfl, Derives.name, rfl⟩

theorem number
    {v : Value} {digits : String}
    (h : v.toInt = Nat.ofDigitChars 10 digits.toList 0) :
    SpellsAt 5 [.literal digits] (integer c v) := by
  have hBound : v.toInt ≤ 2147483647 := v.inRange.2
  exact ⟨[⟨.literal digits, c⟩], integer c v, rfl, Derives.number (by omega) h, rfl⟩

theorem group
    (h : SpellsAt 1 ts e) (floor : Nat) :
    SpellsAt floor (.leftParen :: (ts ++ [.rightParen])) e := by
  obtain ⟨ls, e', rfl, hDerives, hErase⟩ := h
  have hGroup : Derives .primary (⟨.leftParen, ⟨0, 0⟩⟩ :: ls ++ [⟨.rightParen, ⟨0, 0⟩⟩]) e' :=
    Derives.group hDerives
  exact ⟨_, e', by simp, hGroup.loosen_primary floor, hErase⟩

theorem negation
    (h : SpellsAt 4 ts e) :
    SpellsAt 4 (.operator .minus :: ts) (negation c e) := by
  obtain ⟨ls, e', rfl, hDerives, hErase⟩ := h
  have hNegation : Derives .unary (⟨.operator .minus, c⟩ :: ls) (.negation c e') :=
    Derives.unary hDerives
  exact ⟨_, _, by simp, hNegation, by simp [hErase]⟩

theorem binary
    {sign : Operator} {op : BinaryOp}
    (hSign : sign.binaryOp? = some op)
    (hl : SpellsAt op.level ts l) (hr : SpellsAt (op.level + 1) us r) :
    SpellsAt op.level (ts ++ .operator sign :: us) (binary c op l r) := by
  obtain ⟨ls, l', rfl, hDerivesL, hEraseL⟩ := hl
  obtain ⟨rs, r', rfl, hDerivesR, hEraseR⟩ := hr
  have hBinary : Derives (.atLeast op.level) (ls ++ ⟨.operator sign, c⟩ :: rs)
      (.binary c op l' r') :=
    Derives.binary hSign hDerivesL hDerivesR
  exact ⟨_, _, by simp, hBinary, by simp [hEraseL, hEraseR]⟩

theorem assign
    (x : Name)
    (h : SpellsAt 1 ts e) :
    SpellsAt 1 (.ident x :: .operator .equal :: ts) (assign c x e) := by
  obtain ⟨ls, e', rfl, hDerives, hErase⟩ := h
  have hName : Derives .additive [⟨.ident x, c⟩] (var c x) :=
    Derives.name.loosen_primary 2
  have hAssign : Derives .assign ([⟨.ident x, c⟩] ++ ⟨.operator .equal, c⟩ :: ls)
      (.assign c x e') :=
    Derives.assign hName hDerives
  exact ⟨_, _, by simp, hAssign, by simp [hErase]⟩

end SpellsAt

section Tokens

theorem exists_operator
    (op : BinaryOp) :
    ∃ sign, Token.ofChar? op.toChar = some (.operator sign) ∧ sign.binaryOp? = some op := by
  cases op with
  | add => exact ⟨.plus, rfl, rfl⟩
  | subtract => exact ⟨.minus, rfl, rfl⟩
  | multiply => exact ⟨.star, rfl, rfl⟩
  | divide => exact ⟨.slash, rfl, rfl⟩

theorem significant_cons_operator
    {c : Char} {u : Token}
    (h : Token.ofChar? c = some u) (b : List Char) :
    significant (c :: b) = u :: significant b := by
  have hTokens := significant_append_operator h [] b
  rwa [List.nil_append] at hTokens

/-- An operator with a blank on either side. -/
theorem significant_append_spaced
    {c : Char} {u : Token}
    (h : Token.ofChar? c = some u) (a b : List Char) :
    significant (a ++ ' ' :: c :: ' ' :: b) = significant a ++ u :: significant b := by
  have hBlank : Token.isBlankChar ' ' = true := rfl
  have hRight := significant_append_blank hBlank [] b
  rw [List.nil_append] at hRight
  rw [significant_append_blank hBlank, significant_cons_operator h, hRight]
  rfl

theorem significant_group
    (text : List Char) :
    significant ('(' :: (text ++ [')'])) = .leftParen :: (significant text ++ [.rightParen]) := by
  have hOpen : Token.ofChar? '(' = some .leftParen := rfl
  have hClose : Token.ofChar? ')' = some .rightParen := rfl
  rw [significant_cons_operator hOpen, significant_append_operator hClose]
  rfl

theorem significant_render_negation
    (c : Column) (e : Expr) :
    significant (negation c e).render.toList =
      .operator .minus :: significant (e.renderAt 4).toList := by
  have hMinus : Token.ofChar? '-' = some (.operator .minus) := rfl
  rw [toList_render_negation, significant_cons_operator hMinus]

theorem significant_render_binary
    (c : Column) (op : BinaryOp) (l r : Expr) :
    ∃ sign, sign.binaryOp? = some op ∧
      significant (binary c op l r).render.toList =
        significant (l.renderAt op.level).toList ++
          .operator sign :: significant (r.renderAt (op.level + 1)).toList := by
  obtain ⟨sign, hToken, hSign⟩ := exists_operator op
  exact ⟨sign, hSign, by rw [toList_render_binary, significant_append_spaced hToken]⟩

theorem significant_render_assign
    {x : Name}
    (hx : PlainName x) (c : Column) (e : Expr) :
    significant (assign c x e).render.toList =
      .ident x :: .operator .equal :: significant e.render.toList := by
  have hEqual : Token.ofChar? '=' = some (.operator .equal) := rfl
  rw [toList_render_assign, significant_append_spaced hEqual, significant_name hx.1]
  rfl

end Tokens

section Sufficiency

theorem spellsAt_renderAt
    {e : Expr}
    (h : SpellsAt e.level (significant e.render.toList) e) (floor : Nat) :
    SpellsAt floor (significant (e.renderAt floor).toList) e := by
  by_cases hLevel : floor ≤ e.level
  · rw [renderAt_of_le hLevel]
    exact h.loosen hLevel
  · rw [renderAt_of_lt (Nat.not_le.mp hLevel), toList_parenthesized, significant_group]
    exact (h.loosen e.level_pos).group floor

/-- The text of a plain expression spells it: the parentheses in it are enough. -/
theorem spellsAt_render
    {e : Expr}
    (h : e.Plain) :
    SpellsAt e.level (significant e.render.toList) e := by
  induction e with
  | integer c v =>
      have hValue : v.toInt = Nat.ofDigitChars 10 (toString v.toInt.toNat).toList 0 := by
        rw [ofDigitChars_toString, Int.toNat_of_nonneg h]
      rw [render_integer h, significant_toString]
      exact SpellsAt.number hValue
  | var c x =>
      rw [render_var, significant_name h.1]
      exact SpellsAt.name x
  | negation c e ih =>
      rw [significant_render_negation]
      exact (spellsAt_renderAt (ih h) 4).negation
  | binary c op l r ihl ihr =>
      obtain ⟨sign, hSign, hTokens⟩ := significant_render_binary c op l r
      rw [hTokens]
      exact SpellsAt.binary hSign (spellsAt_renderAt (ihl h.1) op.level)
        (spellsAt_renderAt (ihr h.2) (op.level + 1))
  | assign c x e ih =>
      rw [significant_render_assign h.1]
      exact ((ih h.2).loosen e.level_pos).assign x

end Sufficiency

section Necessity

/-- How many tokens the printer writes in a place that requires a level of at least `floor`. -/
def tokenCount (floor : Nat) (e : Expr) : Nat :=
  (significant (e.renderAt floor).toList).length

theorem tokenCount_of_le
    {floor : Nat} {e : Expr}
    (h : floor ≤ e.level) :
    tokenCount floor e = (significant e.render.toList).length := by
  rw [tokenCount, renderAt_of_le h]

theorem tokenCount_of_lt
    {floor : Nat} {e : Expr}
    (h : e.level < floor) :
    tokenCount floor e = (significant e.render.toList).length + 2 := by
  rw [tokenCount, renderAt_of_lt h, toList_parenthesized, significant_group]
  simp

theorem tokenCount_mono
    {floor strength : Nat}
    (h : floor ≤ strength) (e : Expr) :
    tokenCount floor e ≤ tokenCount strength e := by
  by_cases hFloor : floor ≤ e.level
  · have hLoose := tokenCount_of_le hFloor
    by_cases hStrength : strength ≤ e.level
    · have hTight := tokenCount_of_le hStrength
      omega
    · have hTight := tokenCount_of_lt (Nat.not_le.mp hStrength)
      omega
  · have hStrength : e.level < strength := by omega
    have hLoose := tokenCount_of_lt (Nat.not_le.mp hFloor)
    have hTight := tokenCount_of_lt hStrength
    omega

/-- One pair of parentheses is enough for any place. -/
theorem tokenCount_le_add_two
    (floor : Nat) (e : Expr) :
    tokenCount floor e ≤ tokenCount 1 e + 2 := by
  have hBare := tokenCount_of_le e.level_pos
  by_cases h : floor ≤ e.level
  · have hCount := tokenCount_of_le h
    omega
  · have hCount := tokenCount_of_lt (Nat.not_le.mp h)
    omega

theorem tokenCount_integer
    {v : Value}
    (h : 0 ≤ v.toInt) (c : Column) :
    tokenCount 5 (integer c v) = 1 := by
  have hLevel : 5 ≤ (integer c v).level := Nat.le_refl 5
  rw [tokenCount_of_le hLevel, render_integer h, significant_toString]
  rfl

theorem tokenCount_var
    {x : Name}
    (h : PlainName x) (c : Column) :
    tokenCount 5 (var c x) = 1 := by
  have hLevel : 5 ≤ (var c x).level := Nat.le_refl 5
  rw [tokenCount_of_le hLevel, render_var, significant_name h.1]
  rfl

theorem tokenCount_negation
    (c : Column) (e : Expr) :
    tokenCount 4 (negation c e) = tokenCount 4 e + 1 := by
  have hLevel : 4 ≤ (negation c e).level := Nat.le_refl 4
  rw [tokenCount_of_le hLevel, significant_render_negation, List.length_cons, tokenCount]

theorem tokenCount_binary_le
    {strength m n : Nat} {c : Column} {op : BinaryOp} {l r : Expr}
    (hOp : op.level = strength)
    (hl : tokenCount strength l ≤ m) (hr : tokenCount (strength + 1) r ≤ n) :
    tokenCount strength (binary c op l r) ≤ m + (n + 1) := by
  have hLevel : strength ≤ (binary c op l r).level := Nat.le_of_eq hOp.symm
  obtain ⟨sign, _, hTokens⟩ := significant_render_binary c op l r
  rw [hOp] at hTokens
  rw [tokenCount] at hl hr
  rw [tokenCount_of_le hLevel, hTokens, List.length_append, List.length_cons]
  omega

theorem tokenCount_assign
    {x : Name}
    (h : PlainName x) (c : Column) (e : Expr) :
    tokenCount 1 (assign c x e) = tokenCount 1 e + 2 := by
  have hLevel : 1 ≤ (assign c x e).level := Nat.le_refl 1
  rw [tokenCount_of_le hLevel, significant_render_assign h, tokenCount_of_le e.level_pos]
  rfl

/-- Every derivation takes at least as many tokens as the printer writes. -/
theorem tokenCount_le_of_derives
    {nonterminal : Level} {ls : List Lexeme} {e : Expr}
    (h : Derives nonterminal ls e) (hPlain : e.Plain) :
    tokenCount nonterminal.strength e ≤ ls.length := by
  induction h with
  | assignOfAdditive _ ih | additiveOfMultiplicative _ ih | multiplicativeOfUnary _ ih
  | unaryOfPrimary _ ih =>
      -- a looser nonterminal requires no more parentheses
      refine Nat.le_trans (tokenCount_mono ?_ _) (ih hPlain)
      simp [Level.strength]
  | @assign ls rs c d x rhs hl _ _ ihr =>
      have hLeft : 0 < ls.length := List.length_pos_iff.mpr hl.ne_nil
      have hRight : tokenCount 1 rhs ≤ rs.length := ihr hPlain.2
      change tokenCount 1 (Expr.assign c x rhs) ≤ _
      rw [tokenCount_assign hPlain.1, List.length_append, List.length_cons]
      omega
  | additive hSign _ _ ihl ihr =>
      obtain ⟨_, hLevel⟩ := binaryOp?_of_mem_sums hSign
      rw [List.length_append, List.length_cons]
      exact tokenCount_binary_le hLevel (ihl hPlain.1) (ihr hPlain.2)
  | multiplicative hSign _ _ ihl ihr =>
      obtain ⟨_, hLevel⟩ := binaryOp?_of_mem_products hSign
      rw [List.length_append, List.length_cons]
      exact tokenCount_binary_le hLevel (ihl hPlain.1) (ihr hPlain.2)
  | @unary ls c e _ ih =>
      have hOperand : tokenCount 4 e ≤ ls.length := ih hPlain
      change tokenCount 4 (Expr.negation c e) ≤ _
      rw [tokenCount_negation, List.length_cons]
      omega
  | @name c x =>
      exact Nat.le_of_eq (tokenCount_var hPlain c)
  | @number c digits v _ _ =>
      exact Nat.le_of_eq (tokenCount_integer hPlain c)
  | @group ls c d e _ ih =>
      have hInner : tokenCount 1 e ≤ ls.length := ih hPlain
      have hGroup := tokenCount_le_add_two 5 e
      change tokenCount 5 e ≤ _
      rw [List.length_append, List.length_cons, List.length_singleton]
      omega

section Columns

theorem renderAt_mapColumns
    (f : Column → Column) (floor : Nat) (e : Expr) :
    (e.mapColumns f).renderAt floor = e.renderAt floor := by
  induction e generalizing floor with
  | integer | var => rfl
  | negation _ _ ih | assign _ _ _ ih =>
      rw [mapColumns, renderAt, renderAt, ih]
      rfl
  | binary _ _ _ _ ihl ihr =>
      rw [mapColumns, renderAt, renderAt, ihl, ihr]
      rfl

theorem render_eraseColumns
    (e : Expr) :
    e.eraseColumns.render = e.render :=
  renderAt_mapColumns _ 1 e

theorem plain_eraseColumns
    (e : Expr) :
    e.eraseColumns.Plain ↔ e.Plain := by
  induction e with
  | integer | var => rfl
  | negation _ _ ih => exact ih
  | assign _ _ _ ih => exact and_congr Iff.rfl ih
  | binary _ _ _ _ ihl ihr => exact and_congr ihl ihr

end Columns

/-- No tokens that spell a plain expression are fewer than those of its text: there is no
parenthesis to spare. -/
theorem length_significant_render_le
    {ts : List Token} {e : Expr}
    (h : e.Plain) (hSpells : Spells ts e) :
    (significant e.render.toList).length ≤ ts.length := by
  obtain ⟨ls, e', rfl, hDerives, hErase⟩ := hSpells
  have hPlain : e'.Plain := by
    rwa [← plain_eraseColumns, hErase, plain_eraseColumns]
  have hRender : e'.render = e.render := by
    rw [← render_eraseColumns, hErase, render_eraseColumns]
  have hCount := tokenCount_le_of_derives hDerives hPlain
  rw [Level.strength, tokenCount_of_le e'.level_pos, hRender] at hCount
  rw [List.length_map]
  exact hCount

end Necessity

end Expr
end IntegerBasic
