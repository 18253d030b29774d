import Mathlib.Data.List.Chain
import BuildPrune.Proofs.Construction
import BuildPrune.Proofs.Inheritance
import BuildPrune.Proofs.LineBreaks
import BuildPrune.Proofs.Rereading

/-!
# BuildPrune.Proofs.Separation

**Statements stay separated.** Two statements of a list that follow each other are separated if the
first ends itself, with a `;` or because it is an import, or the second starts a line. This is so in
every list of a parsed script, and it stays so however often the script is visited
(`separated_visits`).

Reading ends a statement without a `;` only at the end of a line, of the block or of the text, and
no statement starts with a closing bracket. A removal hands the line break in front of a statement
on to the next one (`Trivia.hasLineBreak_repair`), whatever else becomes of the trivia.
-/

namespace BuildPrune

/-! ### Blocks

The lists of statements of a script are its own and the bodies of its lambdas, also of those
inside of arguments. Each of them is a block of some expression. -/

/-- The blocks that belong to the expression itself, not to what is inside it. -/
def Expr.ownBlocks : Expr → List (List Statement)
  | .call c => c.lambda.toList.map Lambda.body
  | .lambda l => [l.body]
  | _ => []

/-- Every list of statements of a script: its own, and the bodies of its lambdas at any depth. -/
def Script.blocks (script : Script) : List (List Statement) :=
  script.statements :: script.occurrences.flatMap fun o => o.expr.ownBlocks

/-- The statement ends wherever the next one starts: it has a `;`, or it is an import, which ends
with its path. -/
def Statement.endsItself : Statement → Bool
  | .importing _ => true
  | .expression _ semicolon => semicolon.isSome
  | .empty _ => true

/-- It can be seen that `next` is another statement than `s` in front of it. -/
def Statement.Separated (s next : Statement) : Prop :=
  s.endsItself = true ∨ next.firstToken.startsLine = true

/-- In every list of the script, each statement is separated from the next. -/
def Script.Separated (script : Script) : Prop :=
  ∀ block ∈ script.blocks, block.IsChain Statement.Separated

/-- The blocks that belong to the expression are lists of separated statements. -/
def Expr.SeparatedBlocks (e : Expr) : Prop :=
  ∀ block ∈ e.ownBlocks, block.IsChain Statement.Separated

/-- A script is separated if its own statements are, and the blocks of each expression in it. The
second part is what a visit hands down from node to node. -/
theorem Script.separated_iff {script : Script} :
    script.Separated ↔ script.statements.IsChain Statement.Separated ∧
      script.Every fun _ e => e.SeparatedBlocks := by
  simp only [Script.Separated, Script.blocks, List.forall_mem_cons, List.forall_mem_flatMap]
  exact Iff.rfl

/-! ### Closing brackets

In front of a closing bracket a statement can end without a `;`. It has to be seen that no
statement starts there, since then it would stand behind the other one on the same line. -/

/-- A token that is one of certain texts is no closing bracket, if none of them is. -/
theorem Token.not_isCloser {t : Token} {texts : List String} (h : t.isOneOf texts = true)
    (htexts : ∀ text ∈ texts, text ∉ closers) : t.isCloser = false := by
  obtain ⟨text, htext, his⟩ := List.any_eq_true.1 h
  rw [Bool.eq_false_iff]
  intro hcloser
  obtain ⟨closer, hmem, his'⟩ := List.any_eq_true.1 hcloser
  rw [← Token.text_of_is his', Token.text_of_is his] at hmem
  exact htexts text htext hmem

theorem Token.not_isCloser_of_is {t : Token} {text : String} (h : t.is text = true)
    (htext : text ∉ closers) : t.isCloser = false := by
  have hone : t.isOneOf [text] = true := by simpa [Token.isOneOf] using h
  exact Token.not_isCloser hone (by simpa using htext)

/-- If the token is a closing bracket, it is no name. -/
def Token.IsPlainCloser (t : Token) : Prop :=
  t.isCloser = true → t.isName = false

/-- The lexer reads brackets, separators and arrows as punctuation. A name or a literal is never
spelled like them. -/
theorem punct_of_solid_lex (source : String) :
    ∀ t ∈ (lex source).tokens, t.text ∈ solidTexts → t.kind = .punct := by
  have hstands : ∀ {tokens : List Token} {rest : List Char}, Stand tokens rest →
      ∀ t ∈ tokens, ∃ behind, t.StandsBefore behind := by
    intro tokens rest hstand
    induction tokens with
    | nil => simp
    | cons t tokens ih => exact List.forall_mem_cons.2 ⟨⟨_, hstand.1⟩, ih hstand.2⟩
  intro t ht hsolid
  obtain ⟨behind, -, -, hread⟩ := hstands (stand_lex source) t ht
  rw [(Lexer.token_of_solid hsolid behind).2] at hread
  exact (Prod.mk.inj hread).1.symm

/-- So a closing bracket of a text is no name, and ends a list wherever it stands. -/
theorem isPlainCloser_lex (source : String) : ∀ t ∈ (lex source).tokens, t.IsPlainCloser := by
  intro t ht hcloser
  obtain ⟨text, htext, his⟩ := List.any_eq_true.1 hcloser
  have hsolid : ∀ text ∈ closers, text ∈ solidTexts := by decide
  have hkind := punct_of_solid_lex source t ht (Token.mem_of_is his (hsolid text htext))
  simp [Token.isName, Token.isIdent, hkind]

/-! ### Reading

A statement ends with a `;`, in front of a new line, in front of a closing bracket or at the end
of the text. If another one follows it in the same list then only the first two are left. -/

theorem Cursor.next_of_rest {c : Cursor} {t t' : Token} {rest : List Token} (ht : c.next = some t)
    (hrest : c.rest = t' :: rest) : t = t' := by
  rw [Cursor.next, hrest, List.head?_cons] at ht
  exact (Option.some.inj ht).symm

namespace Parser

variable {mode : Mode} {task : Task} {piece : Piece} {c c' : Cursor}

/-- The production goes on to the end of a statement. -/
def Task.endsStatement : Task → Bool
  | .statementExpr isBody => !isBody
  | .statementTail isBody _ _ => !isBody
  | _ => false

/-- Such a production stops where a statement may end. Only the last of its steps has to be looked
at, since each of them is followed by this test. -/
theorem Reads.atStatementEnd (h : Reads mode task c piece c') (htask : task.endsStatement = true) :
    c'.atStatementEnd mode = true := by
  induction h with
  | statementExpr _ _ _ ihtail => exact ihtail htask
  | tailElse hother =>
      simp only [Bool.and_eq_true] at hother
      simp [Task.endsStatement, hother.1.1] at htask
  | tailNext _ _ _ _ _ ihtail | tailBody _ _ _ _ _ _ _ ihtail => exact ihtail htask
  | tailEnd _ hends _ => exact hends
  | _ => cases htask

/-- The production starts with the first token of a statement or of an expression. -/
def Task.startsNode : Task → Bool
  | .statement | .statementExpr _ | .commandOrExpression | .expression | .unary | .primary => true
  | _ => false

/-- No statement starts with a closing bracket, unless that is a name as well. This is what keeps
the closing brace out of the list that it closes. -/
theorem Reads.isName_of_isCloser (h : Reads mode task c piece c') (htask : task.startsNode = true)
    {t : Token} (ht : c.next = some t) (hcloser : t.isCloser = true) : t.isName = true := by
  -- The first token of each production is the first token of the production it starts with.
  induction h with
  | exprStatement _ _ _ _ ih | statementExpr _ _ ih _ | plainExpression _ _ ih
  | memberCommand _ _ _ _ _ _ ih _ _ | callCommand _ _ _ _ ih _ | noCommand _ _ _ _ ih
  | expression _ _ ih _ | operand _ _ _ ih _ => exact ih rfl ht
  | command _ hstarts =>
      simp only [Cursor.atCommand, Bool.and_eq_true, Cursor.nextIs, ht, Option.any_some] at hstarts
      exact hstarts.1
  | name hhere hisName | call hhere hisName =>
      rw [Cursor.next_of_rest ht hhere]
      exact hisName
  | emptyStatement hread =>
      obtain ⟨hrest, his, -⟩ := Cursor.take?_some hread
      rw [Cursor.next_of_rest ht hrest, Token.not_isCloser_of_is his (by decide)] at hcloser
      cases hcloser
  | prefixed hop =>
      obtain ⟨hrest, his, -⟩ := Cursor.take?_some hop
      rw [Cursor.next_of_rest ht hrest, Token.not_isCloser his (by decide)] at hcloser
      cases hcloser
  | importStatement _ hstarts =>
      simp only [Cursor.atImport, Bool.and_eq_true, Cursor.isAt, Cursor.nextIs, ht,
        Option.any_some] at hstarts
      rw [Token.not_isCloser_of_is hstarts.1 (by decide)] at hcloser
      cases hcloser
  | lambdaExpr _ hopening | group _ hopening | list _ hopening =>
      simp only [Cursor.isAt, Cursor.nextIs, ht, Option.any_some] at hopening
      rw [Token.not_isCloser_of_is hopening (by decide)] at hcloser
      cases hcloser
  | annotatedExpr _ hopening =>
      simp only [Cursor.atAnnotated, Bool.and_eq_true, Cursor.isAt, Cursor.nextIs, ht,
        Option.any_some] at hopening
      rw [Token.not_isCloser_of_is hopening.1.1 (by decide)] at hcloser
      cases hcloser
  | atom hhere _ _ hnoCloser =>
      rw [Cursor.next_of_rest ht hhere, hnoCloser] at hcloser
      cases hcloser
  | _ => cases htask

/-- A statement that does not end itself ends where the line does, in front of another one. Where it
ended for another reason, a closing bracket follows, or a `;`, which it then has taken. -/
theorem Reads.startsLine_of_not_endsItself {s : Statement} (h : Reads mode .statement c
    (.statement s) c') (hmode : mode.lineSensitive = true) (hends : s.endsItself = false)
    {t : Token} (ht : c'.next = some t) (hopens : t.isCloser = false) : t.startsLine = true := by
  cases h with
  | emptyStatement | importStatement => cases hends
  | exprStatement _ _ hexpr hend =>
      simp only [Statement.endsItself, Option.isSome_eq_false_iff, Option.isNone_iff_eq_none] at hends
      subst hends
      obtain ⟨rfl, hmark⟩ := Cursor.optional_none hend
      have hstop := hexpr.atStatementEnd rfl
      simp only [Cursor.atStatementEnd, ht] at hstop
      simp only [Cursor.isAt, Cursor.nextIs, ht, Option.any_some] at hmark
      rw [hmark, hopens, hmode] at hstop
      simp only [Bool.false_or, Bool.true_and, Bool.and_eq_true] at hstop
      exact hstop.1

/-- The statements of a list that is read are separated. Each was read up to its end, and the next
one starts there. -/
theorem Reads.separated {out : List Statement} (h : Reads mode task c piece c')
    (hmode : mode.lineSensitive = true) (hpiece : piece = .statements out)
    (hplain : ∀ t ∈ Statement.listTokens out, t.IsPlainCloser) :
    out.IsChain Statement.Separated := by
  induction h generalizing out with
  | blockEnd | textEnd =>
      cases hpiece
      exact .nil
  | @nextStatement mode _ _ c₁ _ first more _ _ hfirst hmore _ ihmore =>
      cases hpiece
      rw [Statement.listTokens, List.forall_mem_append] at hplain
      refine List.isChain_cons.2 ⟨fun next hnext => ?_, ihmore hmode rfl hplain.2⟩
      rw [Statement.Separated, or_iff_not_imp_left, Bool.not_eq_true]
      intro hends
      obtain ⟨rest, rfl⟩ := List.head?_eq_some_iff.1 hnext
      cases hmore with
      | nextStatement _ _ hread _ =>
          -- The next statement starts with the token at which the first one stopped.
          obtain ⟨others, htokens, -⟩ := next.exists_tokens
          have hstart : c₁.next = some next.firstToken := hread.next_eq_some rfl htokens
          have hmem : next.firstToken ∈ Statement.listTokens (next :: rest) := by
            rw [Statement.listTokens, htokens]
            exact List.mem_cons_self
          have hopens : next.firstToken.isCloser = false := by
            rw [Bool.eq_false_iff]
            intro hcloser
            have hname := hread.isName_of_isCloser rfl hstart hcloser
            rw [hplain.2 _ hmem hcloser] at hname
            cases hname
          exact hfirst.startsLine_of_not_endsItself hmode hends hstart hopens
  | _ => cases hpiece

end Parser

/-- The body of a block was read as a list of statements, so it is separated. -/
theorem Lambda.Built.isChain_body {caps : Capabilities} {lambda : Lambda} (h : lambda.Built caps)
    (htokens : ∀ t ∈ lambda.tokens, t.IsPlainCloser) :
    lambda.body.IsChain Statement.Separated := by
  obtain ⟨c, c', hread⟩ := h
  obtain ⟨opening, params, body, closing⟩ := lambda
  rw [Lambda.tokens_mk] at htokens
  simp only [List.forall_mem_cons, List.forall_mem_append] at htokens
  exact hread.separated rfl rfl htokens.2.2.1

/-- The blocks that an expression owns were read as lists of statements, so they are separated. -/
theorem Expr.Built.separatedBlocks {caps : Capabilities} {e : Expr} (h : e.Built caps)
    (htokens : e.TokensAre Token.IsPlainCloser) : e.SeparatedBlocks := by
  intro block hblock
  cases e with
  | call c =>
      obtain ⟨receiver, name, types, args, lambda, style⟩ := c
      simp only [Expr.ownBlocks, List.mem_map, Option.mem_toList] at hblock
      obtain ⟨l, hl, rfl⟩ := hblock
      refine (h.2 l hl).isChain_body fun t ht => htokens t ?_
      rw [Expr.tokens, Call.tokens_mk, Option.mem_def.1 hl, partTokens_some]
      simp [ht]
  | lambda l =>
      obtain rfl := List.mem_singleton.1 hblock
      refine Lambda.Built.isChain_body h fun t ht => htokens t ?_
      rwa [Expr.tokens]
  | _ => cases hblock

/-- The statements of every list of a parsed script are separated, at the top and in blocks. -/
theorem separated_of_parse {source : String} {dialect : Dialect} {script : Script}
    (h : parse source dialect = .ok script) : script.Separated := by
  have hplain : ∀ t ∈ script.tokens, t.IsPlainCloser := by
    rw [(tokens_of_parse h).1]
    exact isPlainCloser_lex source
  obtain ⟨-, -, c, hread⟩ := Parser.reads_of_parse h
  refine Script.separated_iff.2 ⟨hread.separated rfl rfl hplain, ?_⟩
  intro o ho
  exact (built_of_parse h o ho).separatedBlocks (Script.every_tokensAre hplain o ho)

/-! ### Removing

What has to be known about the statement in front is only whether it ends itself, and about the
one behind whether it starts a line. A visit does not change the first, and a sweep hands the line
break on where a statement goes. -/

namespace Statement

@[simp] theorem endsItself_withLeading (s : Statement) (leading : String) :
    (s.withLeading leading).endsItself = s.endsItself := by
  cases s <;> rfl

/-- The statements are separated from each other, and the first from what precedes the list.
`ended` says that this ends itself. -/
def SeparatedAfter (ended : Bool) (statements : List Statement) : Prop :=
  (∀ s ∈ statements.head?, ended = true ∨ s.firstToken.startsLine = true) ∧
    statements.IsChain Separated

/-- A list is separated from what precedes it by its first statement, and from there on by each
statement in turn. -/
theorem separatedAfter_cons {ended : Bool} {s : Statement} {rest : List Statement} :
    SeparatedAfter ended (s :: rest) ↔
      (ended = true ∨ s.firstToken.startsLine = true) ∧ SeparatedAfter s.endsItself rest := by
  simp [SeparatedAfter, List.isChain_cons, Separated]

/-- Behind something that ends itself, this is the separation of the list. -/
theorem isChain_iff_separatedAfter {statements : List Statement} :
    statements.IsChain Separated ↔ SeparatedAfter true statements := by
  simp [SeparatedAfter]

/-- What is handed on keeps the next statement separated from what precedes the removed one. If the
removed statement started a line, the next one does now (`Trivia.hasLineBreak_repair`). -/
theorem SeparatedAfter.handOn {ended isFirst : Bool} {removed : Statement}
    {following : List Statement} (trailer : String)
    (h : SeparatedAfter ended (removed :: following)) :
    SeparatedAfter ended (Statement.handOn isFirst removed following trailer).1 := by
  obtain ⟨hremoved, hfollowing⟩ := separatedAfter_cons.1 h
  cases following with
  | nil => simp [Statement.handOn, SeparatedAfter]
  | cons next rest =>
      obtain ⟨-, hrest⟩ := separatedAfter_cons.1 hfollowing
      simp only [Statement.handOn, separatedAfter_cons, endsItself_withLeading,
        startsLine_withLeading, String.toList_ofList]
      refine ⟨hremoved.imp_right fun hline => ?_, hrest⟩
      exact Trivia.hasLineBreak_repair hline _ _ _

/-- A statement that stays ends itself if it did. -/
def EndsAlike (statements : List Statement) (decisions : List (Option Statement)) : Prop :=
  List.Forall₂ (fun s decision => ∀ s' ∈ decision, s'.endsItself = s.endsItself) statements decisions

/-- Handing trivia on changes no ending, so the decisions go on to fit. -/
theorem EndsAlike.handOn {isFirst : Bool} {removed : Statement} {following : List Statement}
    {decisions : List (Option Statement)} (trailer : String) (h : EndsAlike following decisions) :
    EndsAlike (Statement.handOn isFirst removed following trailer).1 decisions :=
  forall₂_handOn (fun s leading decision hnext s' hs' => by
    rw [endsItself_withLeading]
    exact hnext s' hs') isFirst removed trailer h

/-- A list stays separated as entries go one by one, whatever precedes it. -/
theorem SeparatedAfter.sweep : ∀ (isFirst : Bool) {ended : Bool}
    {decisions : List (Option Statement)} {statements : List Statement} (trailer : String),
      EndsAlike statements decisions → SeparatedAfter ended statements →
      SeparatedAfter ended (Statement.sweep isFirst decisions statements trailer).1
  | isFirst, ended, [], [], trailer, _, h => by
      rw [sweep_nil]
      exact h
  | isFirst, ended, some decided :: decisions, statement :: rest, trailer, .cons hends hrest, h => by
      obtain ⟨hstatement, hmore⟩ := separatedAfter_cons.1 h
      rw [sweep_some]
      simp only [separatedAfter_cons, endsItself_withLeading, startsLine_withLeading]
      rw [hends decided rfl]
      exact ⟨hstatement, SeparatedAfter.sweep false trailer hrest hmore⟩
  | isFirst, ended, none :: decisions, statement :: rest, trailer, .cons _ hrest, h => by
      rw [sweep_none]
      exact SeparatedAfter.sweep isFirst _ (EndsAlike.handOn trailer hrest) (h.handOn trailer)

/-- It stays separated as well when the filter of a `plugins` block takes statements out; and the
decisions about the rest fit these, for the sweep that follows. -/
theorem SeparatedAfter.sift (keep : Statement → Bool) : ∀ (isFirst : Bool) {ended : Bool}
    {decisions : List (Option Statement)} {statements : List Statement} (trailer : String),
      EndsAlike statements decisions → SeparatedAfter ended statements →
      EndsAlike (Statement.sift keep isFirst decisions statements trailer).2.1
        (Statement.sift keep isFirst decisions statements trailer).1 ∧
      SeparatedAfter ended (Statement.sift keep isFirst decisions statements trailer).2.1
  | isFirst, ended, [], [], trailer, halike, h => ⟨halike, h⟩
  | isFirst, ended, decision :: decisions, statement :: rest, trailer, .cons hends hrest, h => by
      by_cases hkeep : keep statement = true
      · obtain ⟨hstatement, hmore⟩ := separatedAfter_cons.1 h
        obtain ⟨halike, hsifted⟩ := SeparatedAfter.sift keep false trailer hrest hmore
        rw [sift_keep hkeep]
        exact ⟨.cons hends halike, separatedAfter_cons.2 ⟨hstatement, hsifted⟩⟩
      · rw [sift_drop hkeep]
        exact SeparatedAfter.sift keep isFirst _ (EndsAlike.handOn trailer hrest) (h.handOn trailer)

end Statement

namespace Pruner

variable {p : Pruner} {ctx : Context}

/-- A visit leaves the end of a statement as it is: the `;` stays, and so does a lone one. -/
theorem Keeps.endsItself {s s' : Statement} (h : p.Keeps ctx (.statement s) (.statement s')) :
    s'.endsItself = s.endsItself := by
  cases h <;> rfl

/-- So the decisions about a list end as its statements do. -/
theorem Keeps.endsAlike : ∀ {statements : List Statement} {decisions : List (Option Statement)},
    p.Keeps ctx (.statements statements) (.statements decisions) →
      Statement.EndsAlike statements decisions
  | [], _, .statementsEnd => .nil
  | _ :: _, _, .statementKept hstatement hrest =>
      .cons (fun s' hs' => by
        obtain rfl := Option.mem_some.1 hs'
        exact hstatement.endsItself) hrest.endsAlike
  | _ :: _, _, .statementGone _ hrest => .cons (by simp) hrest.endsAlike

/-- The body of a lambda stays separated. It is sifted by the filter for `plugins` and then swept,
and the first statement may follow the brace in either. -/
theorem Keeps.isChain_body {l l' : Lambda} (h : p.Keeps ctx (.lambda l) (.lambda l'))
    (hbody : l.body.IsChain Statement.Separated) : l'.body.IsChain Statement.Separated := by
  rw [Statement.isChain_iff_separatedAfter] at hbody ⊢
  cases h with
  | @lambda _ _ closing _ _ _ _ _ _ trailer _ hkeeps hsift hsweep =>
      obtain ⟨halike, hsifted⟩ :=
        hbody.sift (p.admits ctx) true closing.leading hkeeps.endsAlike
      rw [hsift] at halike hsifted
      have hswept := hsifted.sweep true trailer halike
      rw [hsweep] at hswept
      exact hswept

theorem Keeps.isChain_block {l l' : Option Lambda} (h : p.Keeps ctx (.block l) (.block l'))
    (hbody : ∀ lambda ∈ l, lambda.body.IsChain Statement.Separated) :
    ∀ lambda ∈ l', lambda.body.IsChain Statement.Separated := by
  cases h with
  | noBlock => simp
  | block hlambda =>
      intro lambda hmem
      obtain rfl := Option.mem_some.1 hmem
      exact hlambda.isChain_body (hbody _ rfl)

/-- What is left of an expression has separated blocks, if it had them before. Only its own blocks
are asked for here; those further inside are their own nodes'. -/
theorem Keeps.separatedBlocks {e e' : Expr} (h : p.Keeps ctx (.expr e) (.expr e'))
    (he : e.SeparatedBlocks) : e'.SeparatedBlocks := by
  intro block hblock
  cases h with
  | lambdaExpr hlambda =>
      obtain rfl := List.mem_singleton.1 hblock
      exact hlambda.isChain_body (he _ List.mem_cons_self)
  | callExpr hcall =>
      cases hcall with
      | call _ _ _ _ hlambda _ =>
          simp only [Expr.ownBlocks, List.mem_map, Option.mem_toList] at hblock
          obtain ⟨l, hl, rfl⟩ := hblock
          refine hlambda.isChain_block (fun l hl => he _ ?_) l hl
          exact List.mem_map_of_mem (Option.mem_toList.2 hl)
  | _ => cases hblock

theorem ownBlocks_withLeading (e : Expr) (leading : String) :
    (e.withLeading leading).ownBlocks = e.ownBlocks := by
  cases e with
  | call c =>
      obtain ⟨receiver, name, types, args, lambda, style⟩ := c
      cases receiver <;> rfl
  | _ => rfl

theorem separatedBlocks_withLeading {e : Expr} (leading : String) (h : e.SeparatedBlocks) :
    (e.withLeading leading).SeparatedBlocks := by
  rw [Expr.SeparatedBlocks, ownBlocks_withLeading]
  exact h

/-- Separated blocks are handed down to what a visit leaves. From this a whole tree follows, node by
node (`Hereditary`). -/
theorem hereditary_separatedBlocks (p : Pruner) :
    p.Hereditary (fun _ e => e.SeparatedBlocks) fun _ e => e.SeparatedBlocks where
  visited h he := h.separatedBlocks he
  copied _ _ h := h
  placed leading h := separatedBlocks_withLeading leading h
  hollow _ block hblock := by
    obtain rfl := List.mem_singleton.1 hblock
    exact .nil

/-- One visit keeps the statements of every list separated, whatever the rules are. The script need
not be one that was parsed, so visits can follow one another. -/
theorem separated_visitScript (p : Pruner) {script : Script} (h : script.Separated) :
    (p.visitScript script).1.Separated := by
  obtain ⟨hstatements, hblocks⟩ := Script.separated_iff.1 h
  refine Script.separated_iff.2 ⟨?_, p.hereditary_separatedBlocks.visitScript hblocks⟩
  rw [Statement.isChain_iff_separatedAfter] at hstatements ⊢
  exact hstatements.sweep true script.eof (keeps_statements p {} script.statements).endsAlike

/-- The statements of every list of a parsed script are separated, and they are still separated
after any number of visits, each with its own rules and its own filter of `plugins` blocks. -/
theorem separated_visits {source : String} {dialect : Dialect} {script : Script}
    (h : parse source dialect = .ok script) :
    script.Separated ∧ ∀ pruners : List Pruner,
      (pruners.foldl (fun visited p => (p.visitScript visited).1) script).Separated := by
  refine ⟨separated_of_parse h, fun pruners => ?_⟩
  have hvisits : ∀ (pruners : List Pruner) (visited : Script), visited.Separated →
      (pruners.foldl (fun visited p => (p.visitScript visited).1) visited).Separated := by
    intro pruners
    induction pruners with
    | nil => exact fun _ hvisited => hvisited
    | cons p pruners ih => exact fun visited hvisited => ih _ (p.separated_visitScript hvisited)
  exact hvisits pruners script (separated_of_parse h)

/-- A block with a `;` and a statement that goes, visited twice. -/
theorem separated_visits_block :
    ∃ script, parse "a \x7b rm(); b()\n  c() \x7d\n" .groovy = .ok script ∧
      ([{ rules := { methods := ["rm"] } }, { rules := {} }].foldl
        (fun visited (p : Pruner) => (p.visitScript visited).1) script).Separated := by
  have haccepted : (parse "a \x7b rm(); b()\n  c() \x7d\n" .groovy).toOption.any
      (fun _ => true) = true := by
    decide +kernel
  obtain ⟨script, hparse, -⟩ := ok_of_any haccepted
  exact ⟨script, hparse, (separated_visits hparse).2 _⟩

end Pruner

end BuildPrune
