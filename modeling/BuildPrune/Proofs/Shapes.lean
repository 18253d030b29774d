import BuildPrune.Proofs.Grammar
import BuildPrune.Proofs.Joints

/-!
# BuildPrune.Proofs.Shapes

The marks of a parsed script. In a tree any token can stand where a bracket, a comma or a semicolon
belongs; in the tree of a text these places hold what they are named for (`shaped_of_parse`).
Between two items there is a comma, and only commands and infixed calls go without parentheses.
-/

namespace BuildPrune

/-! ### Marks in their places

For each node it is said which spellings its tokens have: the brackets of lists, the commas
between items, the arrow of a lambda, the `;` of a statement. -/

/-- The commas are commas, and there is one between two items. -/
def Item.Separated (items : List Item) : Prop :=
  (∀ item ∈ items, ∀ comma ∈ item.comma, comma.text ∈ softTexts) ∧
    ∀ item ∈ items.dropLast, item.comma.isSome

mutual

/-- The marks in the expression are what they should be: what stands where a bracket belongs is a
bracket, and so for commas and arrows. -/
def Expr.Shaped : Expr → Prop
  | .atom _ => True
  | .call call => call.Shaped
  | .lambda lambda => lambda.Shaped
  | .annotated _ _ _ expr =>
    match expr with
    | none => True
    | some expr => expr.Shaped
  | .field target _ _ => target.Shaped
  | .paren _ inner _ => inner.Shaped
  | .index target brackets => target.Shaped ∧ brackets.Shaped
  | .binary left _ right => left.Shaped ∧ right.Shaped
  | .prefixed _ operand => operand.Shaped
  | .postfixed operand _ => operand.Shaped
  | .list brackets => brackets.Shaped
  | .sequence head tail => head.Shaped ∧ Expr.ListShaped tail

/-- The marks in expressions side by side are what they should be. -/
def Expr.ListShaped : List Expr → Prop
  | [] => True
  | expr :: rest => expr.Shaped ∧ Expr.ListShaped rest

/-- The marks in the call are what they should be. -/
def Call.Shaped : Call → Prop
  | ⟨receiver, _, _, args, lambda, style⟩ =>
    (match receiver with
      | none => True
      | some receiver => receiver.Shaped) ∧
    (match args with
      | none => True
      | some args => args.Shaped) ∧
    (match lambda with
      | none => True
      | some lambda => lambda.Shaped) ∧
    (style = .regular → ∀ a ∈ args, a.opening.isSome)

/-- The marks in the receiver are what they should be. -/
def Receiver.Shaped : Receiver → Prop
  | ⟨target, _⟩ => target.Shaped

/-- The marks in the arguments are what they should be. -/
def Arguments.Shaped : Arguments → Prop
  | ⟨opening, items, closing⟩ =>
    (∀ t ∈ opening, t.text ∈ solidTexts) ∧ (∀ t ∈ closing, t.text ∈ softTexts) ∧
      opening.isSome = closing.isSome ∧ Item.Separated items ∧ Item.ListShaped items

/-- The marks in the list are what they should be. -/
def Brackets.Shaped : Brackets → Prop
  | ⟨opening, items, closing⟩ =>
    opening.text ∈ solidTexts ∧ closing.text ∈ softTexts ∧ Item.Separated items ∧
      Item.ListShaped items

/-- The marks in the items are what they should be, those between them aside. -/
def Item.ListShaped : List Item → Prop
  | [] => True
  | ⟨expr, _⟩ :: rest => expr.Shaped ∧ Item.ListShaped rest

/-- The marks in the lambda are what they should be. -/
def Lambda.Shaped : Lambda → Prop
  | ⟨opening, params, body, closing⟩ =>
    opening.text ∈ solidTexts ∧ (∀ p ∈ params, p.arrow.text ∈ solidTexts) ∧
      closing.text ∈ softTexts ∧ Statement.ListShaped body

/-- The marks in the statement are what they should be. -/
def Statement.Shaped : Statement → Prop
  | .importing path => ∀ t ∈ path.semicolon, t.text ∈ softTexts
  | .expression expr semicolon => expr.Shaped ∧ ∀ t ∈ semicolon, t.text ∈ softTexts
  | .empty semicolon => semicolon.text ∈ softTexts

/-- The marks in the statements are what they should be. -/
def Statement.ListShaped : List Statement → Prop
  | [] => True
  | statement :: rest => statement.Shaped ∧ Statement.ListShaped rest

end

/-- A call is shaped as its parts are. A regular call must have parentheses around its arguments, if
it has arguments at all. -/
theorem Call.shaped_mk {receiver : Option Receiver} {name : Token} {types : Option TypeArgs}
    {args : Option Arguments} {lambda : Option Lambda} {style : CallStyle} :
    Call.Shaped ⟨receiver, name, types, args, lambda, style⟩ ↔
      (∀ r ∈ receiver, r.Shaped) ∧ (∀ a ∈ args, a.Shaped) ∧ (∀ l ∈ lambda, l.Shaped) ∧
        (style = .regular → ∀ a ∈ args, a.opening.isSome) := by
  cases receiver <;> cases args <;> cases lambda <;> simp [Call.Shaped]

theorem Expr.listShaped_append (exprs more : List Expr) :
    Expr.ListShaped (exprs ++ more) ↔ Expr.ListShaped exprs ∧ Expr.ListShaped more := by
  induction exprs with
  | nil => simp [Expr.ListShaped]
  | cons expr rest ih => simp [Expr.ListShaped, ih, and_assoc]

theorem Expr.shaped_ofSequence {head : Expr} {tail : List Expr} (hhead : head.Shaped)
    (htail : Expr.ListShaped tail) : (Expr.ofSequence head tail).Shaped := by
  unfold Expr.ofSequence
  split
  · exact hhead
  · exact ⟨hhead, htail⟩

/-- An item with a comma can be put in front of separated items, and one without a comma in front of
nothing. -/
theorem Item.separated_cons {item : Item} {items : List Item}
    (hitem : ∀ comma ∈ item.comma, comma.text ∈ softTexts) (hlast : items = [] ∨ item.comma.isSome)
    (h : Item.Separated items) : Item.Separated (item :: items) := by
  refine ⟨List.forall_mem_cons.2 ⟨hitem, h.1⟩, ?_⟩
  cases items with
  | nil => simp
  | cons next rest =>
      rw [List.dropLast_cons_cons]
      exact List.forall_mem_cons.2 ⟨hlast.resolve_left (List.cons_ne_nil _ _), h.2⟩

/-- What is recognised by its text has this text. All marks are told in this way, so the marks of a
tree have the texts of their kind. -/
theorem Token.text_of_is {t : Token} {text : String} (h : t.is text = true) : t.text = text := by
  simp only [Token.is, Bool.and_eq_true, beq_iff_eq] at h
  exact h.2

theorem Token.mem_of_is {t : Token} {text : String} (h : t.is text = true) {texts : List String}
    (hmem : text ∈ texts) : t.text ∈ texts := by
  rw [Token.text_of_is h]
  exact hmem

theorem Cursor.optional_text {c c' : Cursor} {text : String} {read : Option Token}
    (h : c.optional text = (read, c')) : ∀ t ∈ read, t.text = text := by
  rintro t rfl
  exact Token.text_of_is (Cursor.optional_some h).2.1

/-- What ends an import is a semicolon or nothing. -/
theorem Cursor.importing_semicolon {c c' : Cursor} {path : Import}
    (h : c.importing = .ok (path, c')) : ∀ t ∈ path.semicolon, t.text = ";" := by
  unfold Cursor.importing at h
  obtain ⟨⟨keyword, c₁⟩, -, h⟩ := ok_of_bind h
  rcases hmodifier : (if c₁.secondIs (·.is ".") then (none, c₁) else c₁.optional "static")
    with ⟨modifier, c₂⟩
  simp only [hmodifier] at h
  obtain ⟨⟨first, c₃⟩, -, h⟩ := ok_of_bind h
  rcases hmore : Cursor.importPath c₃.rest.length c₃ with ⟨more, c₄⟩
  simp only [hmore] at h
  split at h
  · obtain ⟨⟨as, c₅⟩, -, h⟩ := ok_of_bind h
    obtain ⟨⟨name, c₆⟩, -, h⟩ := ok_of_bind h
    cases h
    exact Cursor.optional_text rfl
  · cases h
    exact Cursor.optional_text rfl

/-- The parameters of a block end in an arrow, because they are looked for up to one. -/
theorem Cursor.lambdaParams?_arrow {c c' : Cursor} {params : Option LambdaParams}
    (h : c.lambdaParams? = (params, c')) : ∀ p ∈ params, p.arrow.text = "->" := by
  rintro p rfl
  unfold Cursor.lambdaParams? at h
  split at h
  · next read c₁ hread =>
      cases h
      obtain ⟨count, -, hread⟩ := Option.bind_eq_some_iff.1 hread
      simp only [Cursor.lambdaParams, Option.bind_eq_bind, Option.bind_eq_some_iff] at hread
      obtain ⟨⟨arrow, c₁⟩, harrow, h⟩ := hread
      cases h
      exact Token.text_of_is (Cursor.take?_some harrow).2.1
  · cases h

namespace Parser

/-! ### The marks of what is read

By induction on the rules. Where a rule takes a token it has tested the spelling, and that is what
is recorded. -/

/-- The marks in an answer are what they should be. -/
def Piece.Shaped : Piece → Prop
  | .statements out => Statement.ListShaped out
  | .statement out => out.Shaped
  | .expr out => out.Shaped
  | .optionalExpr out => ∀ e ∈ out, e.Shaped
  | .exprs out => Expr.ListShaped out
  | .items out => Item.ListShaped out ∧ Item.Separated out
  | .parts out =>
    (∀ a ∈ out.args, a.Shaped ∧ a.opening.isSome) ∧ ∀ l ∈ out.lambda, l.Shaped
  | .arguments out => ∀ a ∈ out, a.Shaped ∧ a.opening.isSome
  | .brackets out => out.Shaped
  | .lambda out => ∀ l ∈ out, l.Shaped

/-- The marks in what was read before the production started are what they should be. -/
def Task.Shaped : Task → Prop
  | .statementTail _ _ before => Expr.ListShaped before
  | .commandChain target => target.Shaped
  | .operators left => left.Shaped
  | .suffixes operand => operand.Shaped
  | _ => True

theorem shaped_receiver {target : Expr} (h : target.Shaped) (dot : Option Token) :
    ∀ r ∈ some (Receiver.mk target dot), r.Shaped := by
  rintro r ⟨⟩
  rw [Receiver.Shaped]
  exact h

/-- The parts of a call are shaped before it is known whose parts they are: the receiver comes from
an operand that was read earlier. -/
theorem CallParts.shaped_call {parts : CallParts} (h : (Piece.parts parts).Shaped)
    {receiver : Option Receiver} (hreceiver : ∀ r ∈ receiver, r.Shaped) (name : Token)
    (style : CallStyle) : (parts.call receiver name style).Shaped := by
  obtain ⟨types, args, lambda⟩ := parts
  simp only [Piece.Shaped] at h
  obtain ⟨hargs, hlambda⟩ := h
  rw [CallParts.call, Expr.Shaped, Call.shaped_mk]
  exact ⟨hreceiver, fun a ha => (hargs a ha).1, hlambda, fun _ a ha => (hargs a ha).2⟩

/-- A call without parentheses has items and no marks around them. It is not of the regular style,
from which the marks would be asked. -/
theorem Call.shaped_ofItems {items : List Item} (h : (Piece.items items).Shaped)
    {receiver : Option Receiver} (hreceiver : ∀ r ∈ receiver, r.Shaped) (name : Token)
    {style : CallStyle} (hstyle : style ≠ .regular) :
    (Call.ofItems receiver name items style).Shaped := by
  simp only [Piece.Shaped] at h
  rw [Call.ofItems, Expr.Shaped, Call.shaped_mk]
  refine ⟨hreceiver, ?_, by simp, fun hregular => absurd hregular hstyle⟩
  rintro a ⟨⟩
  rw [Arguments.Shaped]
  exact ⟨by simp, by simp, rfl, h.2, h.1⟩

/-- What the grammar reads has its marks in their places: brackets, commas, dots, arrows and
semicolons are tokens of their kind.

The induction is on the rules. For productions that go on from something, what they go on from must
be shaped already (`htask`). -/
theorem Reads.shaped {mode : Mode} {task : Task} {c c' : Cursor} {piece : Piece}
    (h : Reads mode task c piece c') (htask : task.Shaped) : piece.Shaped := by
  -- Only a production that goes on with a part is handed something that could be out of shape.
  induction h with
  | blockEnd | textEnd => simp [Piece.Shaped, Statement.ListShaped]
  | noExpression | noArguments | noLambda => simp [Piece.Shaped]
  | tailElse | tailEnd | chainEnd | operatorsEnd | operatorsStop | suffixesEnd => exact htask
  | sequenceEnd => simp [Piece.Shaped, Expr.ListShaped]
  | itemsEnd => simp [Piece.Shaped, Item.ListShaped, Item.Separated]
  | nextStatement _ _ _ _ ihfirst ihmore =>
      simp only [Piece.Shaped, Statement.ListShaped]
      exact ⟨ihfirst trivial, ihmore trivial⟩
  | emptyStatement hread =>
      simp only [Piece.Shaped, Statement.Shaped]
      exact Token.mem_of_is (Cursor.take?_some hread).2.1 (by decide)
  | importStatement _ _ hread =>
      simp only [Piece.Shaped, Statement.Shaped]
      intro t ht
      rw [Cursor.importing_semicolon hread t ht]
      decide
  | exprStatement _ _ _ hend ihexpr =>
      simp only [Piece.Shaped, Statement.Shaped]
      refine ⟨ihexpr trivial, fun t ht => ?_⟩
      rw [Cursor.optional_text hend t ht]
      decide
  | statementExpr _ _ ihhead ihtail =>
      exact Expr.shaped_ofSequence (ihhead trivial) (ihtail (by simp [Task.Shaped, Expr.ListShaped]))
  | sequence _ _ ihhead ihtail => exact Expr.shaped_ofSequence (ihhead trivial) (ihtail trivial)
  | tailNext _ _ _ _ ihexpr ihtail | tailBody _ _ _ _ _ _ ihexpr ihtail =>
      refine ihtail ?_
      simp only [Task.Shaped, Expr.listShaped_append, Expr.ListShaped, and_true]
      exact ⟨htask, ihexpr trivial⟩
  | plainExpression _ _ ih | noCommand _ _ _ _ ih | group _ _ _ ih | annotatedExpr _ _ _ ih
  | someArguments _ ih | someLambda _ ih => exact ih trivial
  | command _ _ _ _ _ ihitems ihchain =>
      exact ihchain (Call.shaped_ofItems (ihitems trivial) (by simp) _ (by decide))
  | memberCommand _ _ _ _ _ _ ihmember ihitems ihchain =>
      have hmember := ihmember trivial
      simp only [Piece.Shaped, Expr.Shaped] at hmember
      exact ihchain
        (Call.shaped_ofItems (ihitems trivial) (shaped_receiver hmember _) _ (by decide))
  | callCommand _ _ _ _ ihcall ihchain => exact ihchain (ihcall trivial)
  | chainCall _ _ _ _ _ ihparts ihchain =>
      exact ihchain (CallParts.shaped_call (ihparts trivial) (shaped_receiver htask _) _ _)
  | chainCommand _ _ _ _ _ ihitems ihchain =>
      exact ihchain (Call.shaped_ofItems (ihitems trivial) (shaped_receiver htask _) _ (by decide))
  | lastCommandItem _ _ ihexpr | lastItem _ _ _ ihexpr =>
      simp only [Piece.Shaped, Item.ListShaped, and_true]
      exact ⟨ihexpr trivial, by simp [Item.Separated]⟩
  | nextCommandItem _ hcomma _ ihexpr ihmore | nextItem _ _ hcomma _ ihexpr ihmore =>
      obtain ⟨hmore, hseparated⟩ := ihmore trivial
      simp only [Piece.Shaped, Item.ListShaped]
      refine ⟨⟨ihexpr trivial, hmore⟩, Item.separated_cons ?_ (.inr rfl) hseparated⟩
      rintro t ⟨⟩
      exact Token.mem_of_is (Cursor.optional_some hcomma).2.1 (by decide)
  | expression _ _ ihleft ihoperators => exact ihoperators (ihleft trivial)
  | someExpression _ ih =>
      rintro e ⟨⟩
      exact ih trivial
  | binary _ _ _ _ ihright ihoperators =>
      refine ihoperators ?_
      simp only [Task.Shaped, Expr.Shaped]
      exact ⟨htask, ihright trivial⟩
  | infixed _ _ _ _ _ _ ihright ihoperators =>
      refine ihoperators (Call.shaped_ofItems ?_ (shaped_receiver htask _) _ (by decide))
      simp only [Piece.Shaped, Item.ListShaped, and_true]
      exact ⟨ihright trivial, by simp [Item.Separated]⟩
  | prefixed _ _ ihoperand =>
      simp only [Piece.Shaped, Expr.Shaped]
      exact ihoperand trivial
  | operand _ _ _ ihprimary ihsuffixes => exact ihsuffixes (ihprimary trivial)
  | member _ _ _ _ _ _ ihsuffixes =>
      refine ihsuffixes ?_
      simp only [Task.Shaped, Expr.Shaped]
      exact htask
  | memberCall _ _ _ _ _ ihparts ihsuffixes =>
      exact ihsuffixes (CallParts.shaped_call (ihparts trivial) (shaped_receiver htask _) _ _)
  | index _ _ _ _ ihbrackets ihsuffixes =>
      refine ihsuffixes ?_
      simp only [Task.Shaped, Expr.Shaped]
      exact ⟨htask, ihbrackets trivial⟩
  | postfixed _ _ _ _ ihsuffixes =>
      refine ihsuffixes ?_
      simp only [Task.Shaped, Expr.Shaped]
      exact htask
  | name | atom => simp [Piece.Shaped, Expr.Shaped]
  | call _ _ _ _ ihparts => exact CallParts.shaped_call (ihparts trivial) (by simp) _ _
  | lambdaExpr _ _ _ ih =>
      simp only [Piece.Shaped, Expr.Shaped]
      exact ih trivial _ rfl
  | list _ _ _ ih =>
      simp only [Piece.Shaped, Expr.Shaped]
      exact ih trivial
  | emptyParens hopening hclosing =>
      simp only [Piece.Shaped, Expr.Shaped, Brackets.Shaped, Item.ListShaped, and_true]
      exact ⟨Token.mem_of_is (Cursor.expect_ok hopening).2.1 (by decide),
        Token.mem_of_is (Cursor.take?_some hclosing).2.1 (by decide), by simp [Item.Separated]⟩
  | parens _ _ _ _ ihinner =>
      simp only [Piece.Shaped, Expr.Shaped]
      exact ihinner trivial
  | sequenceNext _ _ _ ihfirst ihmore =>
      simp only [Piece.Shaped, Expr.ListShaped]
      exact ⟨ihfirst trivial, ihmore trivial⟩
  | callParts _ _ _ ihargs ihlambda => exact ⟨ihargs trivial, ihlambda trivial⟩
  | arguments hopening _ hclosing ihitems =>
      obtain ⟨hitems, hseparated⟩ := ihitems trivial
      rintro a ⟨⟩
      rw [Arguments.Shaped]
      refine ⟨⟨?_, ?_, rfl, hseparated, hitems⟩, rfl⟩
      · rintro t ⟨⟩
        exact Token.mem_of_is (Cursor.expect_ok hopening).2.1 (by decide)
      · rintro t ⟨⟩
        exact Token.mem_of_is (Cursor.expect_ok hclosing).2.1 (by decide)
  | brackets hopening _ hclosing ihitems =>
      obtain ⟨hitems, hseparated⟩ := ihitems trivial
      simp only [Piece.Shaped, Brackets.Shaped]
      exact ⟨Token.mem_of_is (Cursor.expect_ok hopening).2.1 (by decide),
        Token.mem_of_is (Cursor.expect_ok hclosing).2.1 (by decide), hseparated, hitems⟩
  | lambda hopening hparams _ hclosing ihbody =>
      rintro l ⟨⟩
      rw [Lambda.Shaped]
      refine ⟨Token.mem_of_is (Cursor.expect_ok hopening).2.1 (by decide), fun params hmem => ?_,
        Token.mem_of_is (Cursor.expect_ok hclosing).2.1 (by decide), ihbody trivial⟩
      rw [Cursor.lambdaParams?_arrow hparams params hmem]
      decide
  | @annotated _ _ _ _ _ _ _ _ _ _ _ expr _ _ _ _ _ _ ihexpr =>
      cases expr with
      | none => simp [Piece.Shaped, Expr.Shaped]
      | some e =>
          simp only [Piece.Shaped, Expr.Shaped]
          exact ihexpr trivial e rfl

end Parser

/-- Every script that is parsed has its marks in their places. -/
theorem shaped_of_parse {source : String} {dialect : Dialect} {script : Script}
    (h : parse source dialect = .ok script) : Statement.ListShaped script.statements := by
  obtain ⟨-, -, c, hread⟩ := Parser.reads_of_parse h
  exact hread.shaped trivial

end BuildPrune
