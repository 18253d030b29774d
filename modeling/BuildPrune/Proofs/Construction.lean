import BuildPrune.Proofs.Lossless
import BuildPrune.Proofs.Occurrences

/-!
# BuildPrune.Proofs.Construction

How the nodes of a parsed script are built. A tree can hold calls that no text is read as: a command
in a Kotlin script, an infixed call with two arguments, arguments without parentheses on the next
line. `Expr.Built` says what is true of the nodes that the grammar builds, and every expression of a
parsed script is built so (`built_of_parse`):

* the four forms of calls, each with the capability of the dialect that it needs,
* lists, which have a comma between two entries,
* annotations, which need a capability of their own, and
* blocks, which are read as lists of statements.
-/

namespace BuildPrune

/-! ### Built nodes

What is recorded of a node is what the rule for it has tested, and nothing about the nodes inside
of it. `Expr.BuiltAll` collects this over a tree, in the order in which the expressions stand. -/

/-- Each entry of a list but the last has its comma. -/
def Punctuated (commas : List (Option Token)) : Prop :=
  ∀ comma ∈ commas.dropLast, comma.isSome

/-- A list of arguments between parentheses, with a comma between two of them and perhaps one behind
the last. -/
structure Arguments.Enclosed (args : Arguments) : Prop where
  opening : args.opening.isSome
  closing : args.closing.isSome
  punctuated : Punctuated (args.items.map Item.comma)

/-- What follows the name of a call, as it is read. Type arguments are none without what they are
the type arguments of. -/
structure CallParts.Complete (parts : CallParts) : Prop where
  enclosed : ∀ a ∈ parts.args, a.Enclosed
  types : ∀ types ∈ parts.types, Punctuated (types.params.map TypeParam.comma)
  called : parts.isEmpty = false → parts.args.isSome ∨ parts.lambda.isSome

/-- A list of arguments that ends with the last of them, without a comma. -/
structure Item.Bare (items : List Item) : Prop where
  punctuated : Punctuated (items.map Item.comma)
  last : (items.map Item.comma).getLast? = some none

/-- There is a first item, and it does not start a line. -/
def Item.leadOnLine : List Item → Bool
  | [] => false
  | item :: _ => !item.expr.firstToken.startsLine

/-- How calls are built. There are four forms, and for each it is said what the dialect must have
and which of the parts of a call it can have. -/
inductive Call.Built (caps : Capabilities) : Call → Prop
  /-- `name(args)`, `name { }`, `target.name(args)`. -/
  | regular {receiver : Option Receiver} {name : Token} {types : Option TypeArgs}
      {args : Option Arguments} {lambda : Option Lambda}
      (hparts : CallParts.Complete ⟨types, args, lambda⟩)
      (hsome : CallParts.isEmpty ⟨types, args, lambda⟩ = false) :
      Call.Built caps ⟨receiver, name, types, args, lambda, .regular⟩
  /-- `name(args)` behind a command. -/
  | link {target : Expr} {name : Token} {types : Option TypeArgs} {args : Option Arguments}
      {lambda : Option Lambda} (hcaps : caps.commandExpressions = true)
      (hparts : CallParts.Complete ⟨types, args, lambda⟩) :
      Call.Built caps ⟨some ⟨target, none⟩, name, types, args, lambda, .command⟩
  /-- `name arg, arg`, alone, on a target or behind a command. -/
  | command {receiver : Option Receiver} {name : Token} {items : List Item}
      (hcaps : caps.commandExpressions = true) (hlead : Item.leadOnLine items = true)
      (hbare : Item.Bare items) :
      Call.Built caps ⟨receiver, name, none, some ⟨none, items, none⟩, none, .command⟩
  /-- `target name arg`. -/
  | infixed {target right : Expr} {name : Token} (hcaps : caps.infixCalls = true)
      (hlead : Item.leadOnLine [⟨right, none⟩] = true) :
      Call.Built caps
        ⟨some ⟨target, none⟩, name, none, some ⟨none, [⟨right, none⟩], none⟩, none, .infixed⟩

/-- The body of a block is read as a list of statements. -/
def Lambda.Built (caps : Capabilities) (lambda : Lambda) : Prop :=
  ∃ c c', Parser.Reads ⟨caps, true⟩ (.statements true) c (.statements lambda.body) c'

/-- How expressions are built, apart from the expressions inside them. Only calls, annotations and
lists are asked for anything. -/
def Expr.Built (caps : Capabilities) : Expr → Prop
  | .call c => c.Built caps ∧ ∀ l ∈ c.lambda, l.Built caps
  | .lambda l => l.Built caps
  | .annotated _ _ args _ => caps.annotatedExpressions = true ∧ ∀ a ∈ args, a.Enclosed
  | .index _ brackets | .list brackets => Punctuated (brackets.items.map Item.comma)
  | _ => True

/-- The expression and all that is inside it is built by the grammar. The context does not
matter. -/
def Expr.BuiltAll (caps : Capabilities) (e : Expr) : Prop :=
  ∀ ctx, e.Every (fun _ x => x.Built caps) ctx

/-- All that is inside the items is built by the grammar. -/
def Item.ListBuilt (caps : Capabilities) (items : List Item) : Prop :=
  ∀ ctx, Item.ListEvery (fun _ x => x.Built caps) ctx items

/-- The lambda and all that is inside it is built by the grammar. -/
def Lambda.BuiltAll (caps : Capabilities) (lambda : Lambda) : Prop :=
  lambda.Built caps ∧ ∀ ctx, lambda.Every (fun _ x => x.Built caps) ctx

/-- Behind a token that was read, the second token is the next. -/
theorem Cursor.secondIs_eq_nextIs {c c' : Cursor} {t : Token} (hread : c.rest = t :: c'.rest)
    (p : Token → Bool) : c.secondIs p = c'.nextIs p := by
  rw [Cursor.secondIs, Cursor.second, Cursor.nextIs, Cursor.next, hread, List.getElem?_cons_succ,
    List.head?_eq_getElem?]

/-! ### Commas

Lists of items are read with the comma behind each of them, if there is one. A list goes on only
behind a comma, so none but the last item can be without. -/

/-- An entry with a comma can be put in front. -/
theorem Punctuated.cons {commas : List (Option Token)} (h : Punctuated commas) (comma : Token) :
    Punctuated (some comma :: commas) := by
  cases commas with
  | nil => simp [Punctuated]
  | cons next rest =>
      rw [Punctuated, List.dropLast_cons_cons]
      exact List.forall_mem_cons.2 ⟨rfl, h⟩

/-- Type arguments are split at their commas, so each but the last has its comma. A comma behind the
last leaves no empty entry. -/
theorem punctuated_splitTypeParams (depth : Nat) (current tokens : List Token) :
    Punctuated ((splitTypeParams depth current tokens).map TypeParam.comma) := by
  fun_induction splitTypeParams depth current tokens with
  | case1 | case2 => simp [Punctuated]
  | case5 _ _ t _ _ _ _ ih => exact ih.cons t
  | case3 _ _ _ _ _ ih | case4 _ _ _ _ _ _ ih | case6 _ _ _ _ _ _ _ ih => exact ih

theorem Cursor.typeArgs?_punctuated {c c' : Cursor} {types : TypeArgs}
    (h : c.typeArgs? = (some types, c')) : Punctuated (types.params.map TypeParam.comma) := by
  obtain ⟨count, -, hread⟩ := typeArgs?_some h
  obtain ⟨rest, -, -, hparams, -⟩ := typeArgs_some hread
  rw [hparams]
  exact punctuated_splitTypeParams 0 [] _

namespace Parser

variable {mode : Mode} {task : Task} {piece : Piece} {c c' : Cursor} {caps : Capabilities}

/-- Items are read one by one, and the list goes on only behind a comma. -/
theorem Reads.punctuated {items : List Item} (h : Reads mode task c (.items items) c') :
    Punctuated (items.map Item.comma) := by
  generalize hpiece : Piece.items items = piece at h
  induction h generalizing items with
  | itemsEnd | lastItem | lastCommandItem =>
      cases hpiece
      simp [Punctuated]
  | nextItem _ _ _ _ _ ih | nextCommandItem _ _ _ _ ih =>
      cases hpiece
      exact (ih rfl).cons _
  | _ => cases hpiece

/-- No comma stands behind the last argument of a command. The list goes on behind each comma, over
line breaks as well. -/
theorem Reads.bare {items : List Item} (h : Reads mode .commandItems c (.items items) c') :
    Item.Bare items := by
  refine ⟨h.punctuated, ?_⟩
  generalize hpiece : Piece.items items = piece at h
  generalize htask : Task.commandItems = task at h
  induction h generalizing items with
  | lastCommandItem =>
      cases hpiece
      rfl
  | nextCommandItem _ _ _ _ ih =>
      cases hpiece
      rw [List.map_cons, List.getLast?_cons, ih rfl rfl]
      rfl
  | itemsEnd | lastItem | nextItem => cases htask
  | _ => cases hpiece

/-- Arguments that were tested for were read. -/
theorem Reads.isSome_arguments {args : Option Arguments}
    (h : Reads mode (.argumentsIf true) c (.arguments args) c') : args.isSome := by
  cases h with
  | someArguments hargs => cases hargs with
    | arguments => rfl

/-- A block that was tested for was read. -/
theorem Reads.isSome_lambda {lambda : Option Lambda}
    (h : Reads mode (.lambdaIf true) c (.lambda lambda) c') : lambda.isSome := by
  cases h with
  | someLambda hlambda => cases hlambda with
    | lambda => rfl

/-! ### Arguments that stay on the line

Without parentheses, arguments are read only if their first token is on the line of the name. The
rule has tested the token at the cursor, and this is the first token of the argument. -/

/-- A production that was handed nothing reads its answer from the token at the cursor on. So what
was asked of that token is known of the first token of the answer. -/
theorem Reads.next_eq_some (h : Reads mode task c piece c') (htask : task.tokens = []) {t : Token}
    {rest : List Token} (hpiece : piece.tokens = t :: rest) : c.next = some t := by
  have hread := h.tokens_append_rest
  rw [htask, hpiece, List.nil_append, List.cons_append] at hread
  rw [Cursor.next, hread, List.head?_cons]

/-- An expression that is read where an argument can start does not start a line. -/
theorem Reads.leadOnLine_expr {e : Expr} (h : Reads mode task c (.expr e) c')
    (htask : task.tokens = []) (hstarts : c.nextIs Cursor.startsArgument = true)
    (comma : Option Token) (more : List Item) : Item.leadOnLine (⟨e, comma⟩ :: more) = true := by
  obtain ⟨rest, htokens, -⟩ := e.exists_tokens
  rw [Cursor.nextIs, h.next_eq_some htask htokens, Option.any_some, Cursor.startsArgument,
    Bool.and_eq_true] at hstarts
  exact hstarts.1

/-- So the first argument of a command is on the line of its name. -/
theorem Reads.leadOnLine {items : List Item} (h : Reads mode .commandItems c (.items items) c')
    (hstarts : c.nextIs Cursor.startsArgument = true) : Item.leadOnLine items = true := by
  cases h with
  | lastCommandItem hexpr _ => exact hexpr.leadOnLine_expr rfl hstarts none []
  | nextCommandItem hexpr _ _ => exact hexpr.leadOnLine_expr rfl hstarts _ _

/-! ### Answers

By induction on the rules, the nodes of an answer are built if those are that the production was
handed. Each rule adds one node at most, and for this node the record is made from the tests of
the rule. -/

/-- All that is in an answer is built by the grammar. Of a list this is said of each entry, in
whatever context it stands. -/
def Piece.Built (caps : Capabilities) : Piece → Prop
  | .statements out => ∀ ctx, ∀ s ∈ out, s.Every (fun _ x => x.Built caps) ctx
  | .statement out => ∀ ctx, out.Every (fun _ x => x.Built caps) ctx
  | .expr out => out.BuiltAll caps
  | .optionalExpr out => ∀ e ∈ out, e.BuiltAll caps
  | .exprs out => ∀ e ∈ out, e.BuiltAll caps
  | .items out => Item.ListBuilt caps out
  | .parts out =>
    out.Complete ∧ (∀ a ∈ out.args, Item.ListBuilt caps a.items) ∧ ∀ l ∈ out.lambda, l.BuiltAll caps
  | .arguments out => ∀ a ∈ out, a.Enclosed ∧ Item.ListBuilt caps a.items
  | .brackets out => Punctuated (out.items.map Item.comma) ∧ Item.ListBuilt caps out.items
  | .lambda out => ∀ l ∈ out, l.BuiltAll caps

/-- What was read before the production started is built by the grammar. The dialect must have the
form that the production is about to make. -/
def Task.Built (caps : Capabilities) : Task → Prop
  | .statementTail _ _ before => ∀ e ∈ before, e.BuiltAll caps
  | .commandChain target => caps.commandExpressions = true ∧ target.BuiltAll caps
  | .operators left => left.BuiltAll caps
  | .suffixes operand => operand.BuiltAll caps
  | .annotated => caps.annotatedExpressions = true
  | _ => True

/-- Expressions side by side are built if each is; one alone stands for itself. -/
theorem builtAll_ofSequence {head : Expr} {tail : List Expr} (hhead : head.BuiltAll caps)
    (htail : ∀ e ∈ tail, e.BuiltAll caps) : (Expr.ofSequence head tail).BuiltAll caps := by
  unfold Expr.ofSequence
  split
  · exact hhead
  · intro ctx
    exact Expr.every_sequence.2 ⟨trivial, hhead ctx, fun e he => htail e he ctx⟩

/-- A call is built if its parts and its receiver are, and the call itself by its style. -/
theorem builtAll_parts {parts : CallParts} (h : (Piece.parts parts).Built caps)
    {receiver : Option Receiver} (hreceiver : ∀ r ∈ receiver, r.target.BuiltAll caps)
    {name : Token} {style : CallStyle}
    (hcall : Call.Built caps ⟨receiver, name, parts.types, parts.args, parts.lambda, style⟩) :
    (parts.call receiver name style).BuiltAll caps := by
  obtain ⟨-, hargs, hlambda⟩ := h
  intro ctx
  rw [CallParts.call, Expr.every_call]
  exact ⟨⟨hcall, fun l hl => (hlambda l hl).1⟩, fun r hr => hreceiver r hr _,
    fun a ha => hargs a ha _, fun l hl => (hlambda l hl).2 _⟩

/-- Type arguments are read only where something follows that they belong to. The look-ahead for the
closing bracket has asked for it. -/
theorem complete_parts {c₁ c₂ c₃ : Cursor} {types : Option TypeArgs} {args : Option Arguments}
    {lambda : Option Lambda} (htypes : c.typeArgs? = (types, c₁))
    (hargs : Reads mode (.argumentsIf (c₁.isAtOnLine "(")) c₁ (.arguments args) c₂)
    (hlambda : Reads mode (.lambdaIf (c₂.isAtOnLine openBrace)) c₂ (.lambda lambda) c₃)
    (henclosed : ∀ a ∈ args, a.Enclosed) : CallParts.Complete ⟨types, args, lambda⟩ where
  enclosed := henclosed
  types types htypes' := by
    obtain rfl := Option.mem_def.1 htypes'
    exact Cursor.typeArgs?_punctuated htypes
  called hsome := by
    cases types with
    | none =>
        rw [CallParts.isEmpty, Option.isNone_none, Bool.true_and, Bool.and_eq_false_iff] at hsome
        simpa using hsome
    | some types =>
        cases hparen : c₁.isAtOnLine "(" with
        | true =>
            rw [hparen] at hargs
            exact .inl hargs.isSome_arguments
        | false =>
            -- Nothing is read between the type arguments and the lambda.
            rw [hparen] at hargs
            cases hargs with
            | noArguments =>
                have hbrace := (Cursor.typeArgs?_follows htypes).resolve_left (by simp [hparen])
                rw [hbrace] at hlambda
                exact .inr hlambda.isSome_lambda

theorem builtAll_ofItems {items : List Item} (hitems : Item.ListBuilt caps items)
    {receiver : Option Receiver} (hreceiver : ∀ r ∈ receiver, r.target.BuiltAll caps)
    {name : Token} {style : CallStyle}
    (hcall : Call.Built caps ⟨receiver, name, none, some ⟨none, items, none⟩, none, style⟩) :
    (Call.ofItems receiver name items style).BuiltAll caps := by
  intro ctx
  rw [Call.ofItems, Expr.every_call]
  refine ⟨⟨hcall, by simp⟩, fun r hr => hreceiver r hr _, ?_, by simp⟩
  intro a ha
  obtain rfl := Option.mem_some.1 ha
  exact hitems _

theorem builtAll_receiver {target : Expr} (h : target.BuiltAll caps) (dot : Option Token) :
    ∀ r ∈ some (Receiver.mk target dot), r.target.BuiltAll caps := by
  intro r hr
  obtain rfl := Option.mem_some.1 hr
  exact h

/-- What a production answers is built by the grammar if what it was handed is. The induction is on
the rules; the four ways to build a call come from four of them. -/
theorem Reads.built (h : Reads mode task c piece c') (htask : task.Built mode.caps) :
    piece.Built mode.caps := by
  induction h with
  | blockEnd | textEnd => simp [Piece.Built]
  | noExpression | noArguments | noLambda => simp [Piece.Built]
  | tailElse | tailEnd | operatorsEnd | operatorsStop | suffixesEnd => exact htask
  | chainEnd => exact htask.2
  | sequenceEnd => simp [Piece.Built]
  | itemsEnd => simp [Piece.Built, Item.ListBuilt, Item.ListEvery]
  | nextStatement _ _ _ _ ihfirst ihmore =>
      intro ctx
      exact List.forall_mem_cons.2 ⟨ihfirst trivial ctx, ihmore trivial ctx⟩
  | emptyStatement => exact fun _ => Statement.every_empty
  | importStatement => exact fun _ => Statement.every_importing
  | exprStatement _ _ _ _ ihexpr => exact fun ctx => Statement.every_expression.2 (ihexpr trivial ctx)
  | statementExpr _ _ ihhead ihtail =>
      exact builtAll_ofSequence (ihhead trivial) (ihtail (by simp [Task.Built]))
  | sequence _ _ ihhead ihtail => exact builtAll_ofSequence (ihhead trivial) (ihtail trivial)
  | tailNext _ _ _ _ ihexpr ihtail | tailBody _ _ _ _ _ _ ihexpr ihtail =>
      exact ihtail (List.forall_mem_append.2 ⟨htask, List.forall_mem_singleton.2 (ihexpr trivial)⟩)
  | plainExpression _ _ ih | noCommand _ _ _ _ ih | group _ _ _ ih
  | someArguments _ ih | someLambda _ ih => exact ih trivial
  | annotatedExpr _ hopening _ ih =>
      simp only [Cursor.atAnnotated, Bool.and_eq_true] at hopening
      exact ih hopening.1.2
  | command hcaps hstarts hname hitems _ ihitems ihchain =>
      simp only [Cursor.atCommand, Bool.and_eq_true,
        Cursor.secondIs_eq_nextIs (Cursor.name_ok hname).1] at hstarts
      refine ihchain ⟨hcaps, builtAll_ofItems (ihitems trivial) (by simp) ?_⟩
      exact .command hcaps (hitems.leadOnLine hstarts.2) hitems.bare
  | memberCommand hcaps _ _ hstarts hitems _ ihmember ihitems ihchain =>
      have htarget : Expr.BuiltAll _ _ := fun ctx => (Expr.every_field.1 (ihmember trivial ctx)).2
      refine ihchain ⟨hcaps, builtAll_ofItems (ihitems trivial) (builtAll_receiver htarget _) ?_⟩
      exact .command hcaps (hitems.leadOnLine hstarts) hitems.bare
  | callCommand hcaps _ _ _ ihcall ihchain => exact ihchain ⟨hcaps, ihcall trivial⟩
  | chainCall _ _ _ _ _ ihparts ihchain =>
      obtain ⟨hcaps, htarget⟩ := htask
      have hparts := ihparts trivial
      refine ihchain ⟨hcaps, builtAll_parts hparts (builtAll_receiver htarget _) ?_⟩
      exact .link hcaps hparts.1
  | chainCommand hlink hname hbare hitems _ ihitems ihchain =>
      obtain ⟨hcaps, htarget⟩ := htask
      -- The token behind the name is no parenthesis, so it starts an argument.
      simp only [Cursor.atChainLink, Bool.and_eq_true, Bool.or_eq_true,
        Cursor.secondIs_eq_nextIs (Cursor.name_ok hname).1] at hlink
      have hstarts := hlink.2.resolve_right fun hparen => by
        rw [Cursor.nextIs, Option.any_eq_true] at hparen
        obtain ⟨t, ht, hparen⟩ := hparen
        simp [Cursor.isAt, Cursor.nextIs, ht, (Bool.and_eq_true_iff.1 hparen).1] at hbare
      refine ihchain ⟨hcaps, builtAll_ofItems (ihitems trivial) (builtAll_receiver htarget _) ?_⟩
      exact .command hcaps (hitems.leadOnLine hstarts) hitems.bare
  | lastCommandItem _ _ ihexpr | lastItem _ _ _ ihexpr =>
      exact fun ctx => List.forall_mem_singleton.2 (ihexpr trivial ctx)
  | nextCommandItem _ _ _ ihexpr ihmore | nextItem _ _ _ _ ihexpr ihmore =>
      exact fun ctx => List.forall_mem_cons.2 ⟨ihexpr trivial ctx, ihmore trivial ctx⟩
  | expression _ _ ihleft ihoperators => exact ihoperators (ihleft trivial)
  | someExpression _ ih =>
      intro e he
      obtain rfl := Option.mem_some.1 he
      exact ih trivial
  | binary _ _ _ _ ihright ihoperators =>
      exact ihoperators fun ctx => Expr.every_binary.2 ⟨trivial, htask ctx, ihright trivial ctx⟩
  | infixed _ _ hstarts hname hright _ ihright ihoperators =>
      simp only [Cursor.atInfixedCall, Bool.and_eq_true,
        Cursor.secondIs_eq_nextIs (Cursor.name_ok hname).1] at hstarts
      refine ihoperators (builtAll_ofItems ?_ (builtAll_receiver htask _) ?_)
      · exact fun ctx => List.forall_mem_singleton.2 (ihright trivial ctx)
      · exact .infixed hstarts.1.1.1 (hright.leadOnLine_expr rfl hstarts.2 none [])
  | prefixed _ _ ih => exact fun ctx => Expr.every_prefixed.2 ⟨trivial, ih trivial ctx⟩
  | operand _ _ _ ihprimary ihsuffixes => exact ihsuffixes (ihprimary trivial)
  | member _ _ _ _ _ _ ihsuffixes =>
      exact ihsuffixes fun ctx => Expr.every_field.2 ⟨trivial, htask ctx⟩
  | memberCall _ _ _ hsome _ ihparts ihsuffixes =>
      have hparts := ihparts trivial
      exact ihsuffixes
        (builtAll_parts hparts (builtAll_receiver htask _) (.regular hparts.1 hsome))
  | index _ _ _ _ ihbrackets ihsuffixes =>
      obtain ⟨hpunctuated, hitems⟩ := ihbrackets trivial
      exact ihsuffixes fun ctx => Expr.every_index.2 ⟨hpunctuated, htask ctx, hitems ctx⟩
  | postfixed _ _ _ _ ihsuffixes =>
      exact ihsuffixes fun ctx => Expr.every_postfixed.2 ⟨trivial, htask ctx⟩
  | name | atom => exact fun _ => Expr.every_atom.2 trivial
  | call _ _ _ hsome ihparts =>
      have hparts := ihparts trivial
      exact builtAll_parts hparts (by simp) (.regular hparts.1 hsome)
  | lambdaExpr _ _ _ ih =>
      obtain ⟨hlambda, hinner⟩ := ih trivial _ rfl
      exact fun ctx => Expr.every_lambda.2 ⟨hlambda, hinner ctx⟩
  | list _ _ _ ih =>
      obtain ⟨hpunctuated, hitems⟩ := ih trivial
      exact fun ctx => Expr.every_list.2 ⟨hpunctuated, hitems ctx⟩
  | emptyParens =>
      exact fun ctx => Expr.every_list.2 ⟨by simp [Expr.Built, Punctuated], by simp [Item.ListEvery]⟩
  | parens _ _ _ _ ih => exact fun ctx => Expr.every_paren.2 ⟨trivial, ih trivial ctx⟩
  | sequenceNext _ _ _ ihfirst ihmore =>
      exact List.forall_mem_cons.2 ⟨ihfirst trivial, ihmore trivial⟩
  | callParts htypes hargs hlambda ihargs ihlambda =>
      have henclosed := ihargs trivial
      refine ⟨complete_parts htypes hargs hlambda fun a ha => (henclosed a ha).1, ?_, ihlambda trivial⟩
      exact fun a ha => (henclosed a ha).2
  | arguments _ hitems _ ihitems =>
      intro a ha
      obtain rfl := Option.mem_some.1 ha
      exact ⟨⟨rfl, rfl, hitems.punctuated⟩, ihitems trivial⟩
  | brackets _ hitems _ ihitems => exact ⟨hitems.punctuated, ihitems trivial⟩
  | lambda _ _ hbody _ ihbody =>
      intro l hl
      obtain rfl := Option.mem_some.1 hl
      exact ⟨⟨_, _, hbody⟩, ihbody trivial⟩
  | annotated _ _ _ _ _ ihargs ihexpr =>
      have hargs := ihargs trivial
      intro ctx
      exact Expr.every_annotated.2 ⟨⟨htask, fun a ha => (hargs a ha).1⟩,
        fun a ha => (hargs a ha).2 none, fun e he => ihexpr trivial e he ctx⟩

end Parser

/-- Every expression of a parsed script is built as the grammar of its dialect builds it. Later
modules know of the grammar what `Expr.Built` tells, and no rules. -/
theorem built_of_parse {source : String} {dialect : Dialect} {script : Script}
    (h : parse source dialect = .ok script) :
    script.Every fun _ e => e.Built dialect.capabilities := by
  obtain ⟨-, -, c, hread⟩ := Parser.reads_of_parse h
  exact Script.every_iff.2 (hread.built trivial (some {}))

end BuildPrune
