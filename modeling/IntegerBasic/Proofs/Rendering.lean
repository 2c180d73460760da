import IntegerBasic.Expr.Printer
import IntegerBasic.Instruction.Keyword
import IntegerBasic.Proofs.Occurrence
import IntegerBasic.Proofs.Separation

/-!
# The text of an expression

**Definitions.**  An expression is `Plain` when its names are spelled as names are and have no
keyword in them, and its numbers have no sign.

**Argument.**  What is asked of the text holds of names and numerals and passes from the parts to
the whole, since the printer sets the parts apart by blanks, operators and parentheses.  So there
is one induction on the tree, for all such properties (`Compositional.render`).

**Results.**
* `not_infix_render`: no keyword stands in the text, not even across the tokens of it.
* `solid_render`: the text starts and ends with a token that means something.
* `ofChar?_of_mem_render`: without assignments there is no relation sign in the text.
-/

namespace IntegerBasic

namespace Keyword

/-- The words that mean something wherever they occur. -/
def words : List (List Char) :=
  thenWord :: all.map word

theorem word_mem_words
    (k : Keyword) :
    k.word ∈ words := by
  cases k <;> decide

theorem isAlpha_of_mem_words :
    ∀ w ∈ words, w ≠ [] ∧ ∀ c ∈ w, c.isAlpha = true := by
  have hAll : (words.all fun w => !w.isEmpty && w.all Char.isAlpha) = true := rfl
  intro w hw
  simpa using List.all_eq_true.mp hAll w hw

theorem notMem_of_mem_words
    {w : List Char} {c : Char}
    (hw : w ∈ words) (hc : c.isAlpha = false) :
    c ∉ w := by
  intro hMem
  have hAlpha := (isAlpha_of_mem_words w hw).2 c hMem
  rw [hc] at hAlpha
  contradiction

end Keyword

/-- A name that is spelled as names are and has no keyword in it. -/
def PlainName (x : Name) : Prop :=
  (Token.ident x).WellFormed ∧ ∀ w ∈ Keyword.words, ¬ w <:+: x.toList

section Characters

variable {x : Name} {c : Char}

theorem isNameChar_of_mem_name
    (h : (Token.ident x).WellFormed) :
    ∀ c ∈ x.toList, Token.isNameChar c = true := by
  obtain ⟨c, cs, hName, hAlpha, hRest⟩ := h
  rw [hName, List.forall_mem_cons]
  exact ⟨by simp [Token.isNameChar, hAlpha], hRest⟩

theorem solid_name
    (h : (Token.ident x).WellFormed) :
    Text.Solid x.toList := by
  have hNotNil : x.toList ≠ [] := by
    obtain ⟨c, cs, hName, _⟩ := h
    simp [hName]
  exact Text.solid_of_forall hNotNil
    fun c hc => isWhiteSpace_of_isNameChar (isNameChar_of_mem_name h c hc)

theorem isNameChar_of_mem_toString
    (n : Nat) :
    ∀ c ∈ (toString n).toList, Token.isNameChar c = true := by
  intro c hc
  have hDigit := isDigit_of_mem_toString n c hc
  simp [Token.isNameChar, hDigit]

theorem solid_toString
    (n : Nat) :
    Text.Solid (toString n).toList :=
  Text.solid_of_forall (toList_toString_ne_nil n)
    fun c hc => isWhiteSpace_of_isNameChar (isNameChar_of_mem_toString n c hc)

theorem ofChar?_of_isNameChar
    (h : Token.isNameChar c = true) :
    Comparison.ofChar? c = none := by
  cases hRelation : Comparison.ofChar? c with
  | none => rfl
  | some relation =>
      rw [Comparison.ofChar?_eq_some_iff] at hRelation
      subst hRelation
      cases relation <;> contradiction

end Characters

namespace Expr

/-- All names are plain, and no number has a sign. -/
def Plain : Expr → Prop
  | integer _ v => 0 ≤ v.toInt
  | var _ x => PlainName x
  | negation _ e => e.Plain
  | binary _ _ l r => l.Plain ∧ r.Plain
  | assign _ x e => PlainName x ∧ e.Plain

section Shape

theorem render_integer
    {v : Value}
    (h : 0 ≤ v.toInt) (c : Column) :
    (integer c v).render = toString v.toInt.toNat := by
  obtain ⟨n, hn⟩ := Int.eq_ofNat_of_zero_le h
  have hUnsigned : toString (n : Int) = toString n := rfl
  simp only [render, renderAt, parenthesize, level, Value.render, hn, Int.toNat_natCast, hUnsigned]
  rfl

theorem render_var
    (c : Column) (x : Name) :
    (var c x).render = x := by
  simp [render, renderAt, parenthesize, level]

theorem toList_render_negation
    (c : Column) (e : Expr) :
    (negation c e).render.toList = '-' :: (e.renderAt 4).toList := by
  simp [render, renderAt, parenthesize, level]

theorem toList_render_binary
    (c : Column) (op : BinaryOp) (l r : Expr) :
    (binary c op l r).render.toList =
      (l.renderAt op.level).toList ++ ' ' :: op.toChar :: ' ' ::
        (r.renderAt (op.level + 1)).toList := by
  have hLevel : 1 ≤ op.level := by cases op <;> decide
  simp [render, renderAt, parenthesize, level, hLevel]

theorem toList_render_assign
    (c : Column) (x : Name) (e : Expr) :
    (assign c x e).render.toList = x.toList ++ ' ' :: '=' :: ' ' :: e.render.toList := by
  simp [render, renderAt, parenthesize, level]

theorem toList_parenthesized
    (text : String) :
    ("(" ++ text ++ ")").toList = '(' :: (text.toList ++ [')']) := by
  simp

/-- The property holds of names and numerals, and each way in which the printer puts texts together
keeps it, assignments apart. -/
structure Compositional (P : List Char → Prop) : Prop where
  name : ∀ x, PlainName x → P x.toList
  number : ∀ n : Nat, P (toString n).toList
  group : ∀ a, P a → P ('(' :: (a ++ [')']))
  minus : ∀ a, P a → P ('-' :: a)
  spaced : ∀ a (op : BinaryOp) b, P a → P b → P (a ++ ' ' :: op.toChar :: ' ' :: b)

theorem Compositional.renderAt
    {P : List Char → Prop} {e : Expr}
    (hP : Compositional P)
    (h : P e.render.toList) (floor : Nat) :
    P (e.renderAt floor).toList := by
  by_cases hLevel : floor ≤ e.level
  · rwa [renderAt_of_le hLevel]
  · rw [renderAt_of_lt (Nat.not_le.mp hLevel), toList_parenthesized]
    exact hP.group e.render.toList h

/-- Such a property holds of the text of every plain expression, provided that it is kept by
assignments as well if there are any. -/
theorem Compositional.render
    {P : List Char → Prop} {e : Expr}
    (hP : Compositional P) (h : e.Plain)
    (hAssign : e.assignedNames = [] ∨
      ∀ x b, PlainName x → P b → P (x.toList ++ ' ' :: '=' :: ' ' :: b)) :
    P e.render.toList := by
  induction e with
  | integer c v =>
      rw [render_integer h]
      exact hP.number v.toInt.toNat
  | var c x =>
      rw [render_var]
      exact hP.name x h
  | negation c e ih =>
      rw [toList_render_negation]
      exact hP.minus _ (hP.renderAt (ih h hAssign) 4)
  | binary c op l r ihl ihr =>
      have hl := ihl h.1 (hAssign.imp_left fun hNone => (List.append_eq_nil_iff.mp hNone).1)
      have hr := ihr h.2 (hAssign.imp_left fun hNone => (List.append_eq_nil_iff.mp hNone).2)
      rw [toList_render_binary]
      exact hP.spaced _ op _ (hP.renderAt hl op.level) (hP.renderAt hr (op.level + 1))
  | assign c x e ih =>
      rcases hAssign with hNone | hAssign
      · simp [assignedNames] at hNone
      · rw [toList_render_assign]
        exact hAssign x _ h.1 (ih h.2 (Or.inr hAssign))

end Shape

section Words

variable {w : List Char}

theorem not_infix_toString
    (hw : w ∈ Keyword.words) (n : Nat) :
    ¬ w <:+: (toString n).toList := by
  intro h
  obtain ⟨hNotNil, hAlpha⟩ := Keyword.isAlpha_of_mem_words w hw
  have hHead := List.head_mem hNotNil
  have hDigit := isDigit_of_mem_toString n _ (h.subset hHead)
  rw [isDigit_of_isAlpha (hAlpha _ hHead)] at hDigit
  contradiction

theorem not_infix_cons
    {c : Char} {a : List Char}
    (hw : w ∈ Keyword.words) (hc : c.isAlpha = false)
    (ha : ¬ w <:+: a) :
    ¬ w <:+: c :: a := by
  rwa [Text.infix_cons_iff_of_notMem (Keyword.notMem_of_mem_words hw hc)]

theorem not_infix_append_cons
    {c : Char} {a b : List Char}
    (hw : w ∈ Keyword.words) (hc : c.isAlpha = false)
    (ha : ¬ w <:+: a) (hb : ¬ w <:+: b) :
    ¬ w <:+: a ++ c :: b := by
  rw [Text.infix_append_cons_iff (Keyword.notMem_of_mem_words hw hc), not_or]
  exact ⟨ha, hb⟩

theorem not_infix_spaced
    {c : Char} {a b : List Char}
    (hw : w ∈ Keyword.words) (hc : c.isAlpha = false)
    (ha : ¬ w <:+: a) (hb : ¬ w <:+: b) :
    ¬ w <:+: a ++ ' ' :: c :: ' ' :: b :=
  not_infix_append_cons hw rfl ha (not_infix_cons hw hc (not_infix_cons hw rfl hb))

/-- No keyword stands in the text of a plain expression. -/
theorem not_infix_render
    {e : Expr}
    (hw : w ∈ Keyword.words) (h : e.Plain) :
    ¬ w <:+: e.render.toList := by
  have hNil : ¬ w <:+: [] := by
    rw [List.infix_nil]
    exact (Keyword.isAlpha_of_mem_words w hw).1
  have hP : Compositional fun text => ¬ w <:+: text :=
    { name := fun x hx => hx.2 w hw
      number := not_infix_toString hw
      group := fun a ha => not_infix_cons hw rfl (not_infix_append_cons hw rfl ha hNil)
      minus := fun a ha => not_infix_cons hw rfl ha
      spaced := fun a op b ha hb => not_infix_spaced hw (by cases op <;> rfl) ha hb }
  exact hP.render h (Or.inr fun x b hx hb => not_infix_spaced hw rfl (hx.2 w hw) hb)

end Words

/-- The text of a plain expression has no white space at its ends. -/
theorem solid_render
    {e : Expr}
    (h : e.Plain) :
    Text.Solid e.render.toList := by
  have hSign : ∀ c, Text.isWhiteSpace c = false → Text.Solid [c] := by
    intro c hc
    exact Text.solid_of_forall (List.cons_ne_nil c []) (by simpa using hc)
  have hSpaced : ∀ a c b, Text.Solid a → Text.Solid b → Text.Solid (a ++ ' ' :: c :: ' ' :: b) := by
    intro a c b ha hb
    simpa using ha.append [' ', c, ' '] hb
  have hP : Compositional Text.Solid :=
    { name := fun x hx => solid_name hx.1
      number := solid_toString
      group := fun a _ => (hSign '(' rfl).append a (hSign ')' rfl)
      minus := fun a ha => (hSign '-' rfl).append [] ha
      spaced := fun a op b => hSpaced a op.toChar b }
  exact hP.render h (Or.inr fun x b hx hb => hSpaced _ '=' b (solid_name hx.1) hb)

/-- Without assignments there is no relation sign in the text. -/
theorem ofChar?_of_mem_render
    {e : Expr}
    (h : e.Plain) (hAssigned : e.assignedNames = []) :
    ∀ d ∈ e.render.toList, Comparison.ofChar? d = none := by
  have hP : Compositional fun text => ∀ d ∈ text, Comparison.ofChar? d = none :=
    { name := fun x hx d hd => ofChar?_of_isNameChar (isNameChar_of_mem_name hx.1 d hd)
      number := fun n d hd => ofChar?_of_isNameChar (isNameChar_of_mem_toString n d hd)
      group := fun a ha => by
        simp only [List.forall_mem_cons, List.forall_mem_append]
        exact ⟨rfl, ha, rfl, List.forall_mem_nil _⟩
      minus := fun a ha => List.forall_mem_cons.mpr ⟨rfl, ha⟩
      spaced := fun a op b ha hb => by
        have hOp : Comparison.ofChar? op.toChar = none := by cases op <;> rfl
        simp only [List.forall_mem_cons, List.forall_mem_append]
        exact ⟨ha, rfl, hOp, rfl, hb⟩ }
  exact hP.render h (Or.inl hAssigned)

end Expr
end IntegerBasic
