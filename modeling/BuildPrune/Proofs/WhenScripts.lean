import BuildPrune.Proofs.Siblings
import BuildPrune.Proofs.WhenEntries

/-!
# BuildPrune.Proofs.WhenScripts

**What pruning by the names of calls leaves of a `when`** (`When.words_visitScript`). The script is
one statement, and its block is visited like that of any lambda: the parameters stay, and a
statement goes if a call in it is removed. So branches do not always live on their own
(`When.branches_apart_iff`): a condition that is read as parameters stays without its call, and an
`else` and the branch in front of it take each other along.

The reading goes from the inside out. `reads_params` and `reads_block` read the block up to the
closing brace, by the recursion of `groups`; `reads_lambda` and `parse_laid` put the braces and the
header around it. A statement of the block is known by the entries that it was read from
(`IsGroup`), which say what a visit leaves of it.
-/

namespace BuildPrune.When

variable {mode : Mode} {c : Cursor}

/-! ### Parameters of the block

In front of the first entry the parser looks for an arrow, as in any lambda. If the condition is a
name then it finds the one of the first branch, and takes the condition for a parameter. -/

theorem words_eq_map_spot (tokens : List Token) :
    words tokens = (tokens.map Token.spot).map Prod.snd := by
  rw [List.map_map]
  rfl

theorem map_snd_onLine (list : List (TokenKind × String)) : (onLine list).map Prod.snd = list := by
  simp [onLine, Function.comp_def]

theorem map_snd_lined (line : Bool) (list : List (TokenKind × String)) :
    (lined line list).map Prod.snd = list := by
  cases list with
  | nil => rfl
  | cons word more => rw [lined, List.map_cons, map_snd_onLine]

/-- Names and points are all that stands in a condition which is no literal. None of these words is
an arrow, so the look-ahead for one goes over all of them. -/
theorem Condition.word_cases {condition : Condition} (hfits : condition.Fits)
    (hplain : condition.isLiteral = false) {word : TokenKind × String}
    (hword : word ∈ condition.words) : word = (.punct, ".") ∨ word.1 = .ident ∧ word.2 ≠ "->" := by
  have hidentifier : ∀ name, IsIdentifier name → name ≠ "->" := by
    rintro name hname rfl
    exact not_isIdentifier_punctuation "->" (by decide) hname
  cases condition with
  | name first members =>
      rcases List.mem_cons.1 hword with rfl | hword
      · exact .inr ⟨rfl, hidentifier _ hfits.1.1⟩
      · obtain ⟨member, hmember, hword⟩ := List.mem_flatMap.1 hword
        rcases List.mem_cons.1 hword with rfl | hword
        · exact .inl rfl
        · obtain rfl := List.mem_singleton.1 hword
          exact .inr ⟨rfl, hidentifier _ (hfits.2 member hmember)⟩
  | literal => cases hplain
  | otherwise =>
      obtain rfl := List.mem_singleton.1 hword
      exact .inr ⟨rfl, by decide⟩

/-- A token that can stand in parameters and does not end them. -/
def IsParam (t : Token) : Prop :=
  t.is "->" = false ∧ t.inLambdaParams = true

theorem isParam_of_spot {condition : Condition} (hfits : condition.Fits)
    (hplain : condition.isLiteral = false) {t : Token} {line : Bool}
    (h : t.spot ∈ lined line condition.words) : IsParam t := by
  have hword : (t.kind, t.text) ∈ condition.words := by
    rw [← map_snd_lined line condition.words]
    exact List.mem_map_of_mem (f := Prod.snd) h
  rcases condition.word_cases hfits hplain hword with hpoint | ⟨hkind, htext⟩
  · obtain ⟨hkind, htext⟩ := Prod.mk.inj hpoint
    refine ⟨Token.not_is_of_text (by rw [htext]; decide), ?_⟩
    have his : t.is "." = true := Token.is_of_text (.inr hkind) htext
    rw [Token.inLambdaParams, Bool.or_eq_true]
    exact .inr (List.any_eq_true.2 ⟨".", by decide, his⟩)
  · refine ⟨Token.not_is_of_text htext, ?_⟩
    have hident : t.isIdent = true := by
      rw [Token.isIdent, show t.kind = .ident from hkind]
      rfl
    rw [Token.inLambdaParams, hident, Bool.true_or]

theorem arrowAfter_append {inner : List Token} (rest : List Token) {arrow : Token}
    (harrow : arrow.is "->" = true) (h : ∀ t ∈ inner, t.startsLine = false ∧ IsParam t) :
    arrowAfter (inner ++ arrow :: rest) = some inner.length := by
  induction inner with
  | nil => rw [List.nil_append, arrowAfter, if_pos harrow]; rfl
  | cons t inner ih =>
      obtain ⟨⟨hline, hother, hparam⟩, hmore⟩ := List.forall_mem_cons.1 h
      rw [List.cons_append, arrowAfter, hother, hline, hparam, ih hmore]
      rfl

/-- The look-ahead finds the arrow behind a condition that is no literal. -/
theorem lambdaArrow_words {condition : Condition} (hfits : condition.Fits)
    (hplain : condition.isLiteral = false) {line : Bool} {inner rest : List Token} {arrow : Token}
    (hrest : c.rest = inner ++ arrow :: rest)
    (hinner : inner.map Token.spot = lined line condition.words) (harrow : arrow.is "->" = true) :
    c.lambdaArrow = some inner.length := by
  have hparam : ∀ t ∈ inner, IsParam t := fun t ht =>
    isParam_of_spot hfits hplain (hinner ▸ List.mem_map_of_mem ht)
  rw [Cursor.lambdaArrow, hrest]
  cases inner with
  | nil => exact if_pos harrow
  | cons t inner =>
      obtain ⟨⟨hother, hfirst⟩, hmore⟩ := List.forall_mem_cons.1 hparam
      -- Only the first token of a condition may start a line.
      have honLine : ∀ t ∈ inner, t.startsLine = false := by
        intro t ht
        obtain ⟨word, more, hwords⟩ := List.exists_cons_of_ne_nil condition.words_ne_nil
        rw [hwords, lined, List.map_cons] at hinner
        have hmem : t.spot ∈ onLine more := by
          rw [← (List.cons.inj hinner).2]
          exact List.mem_map_of_mem ht
        obtain ⟨word, -, hspot⟩ := List.mem_map.1 hmem
        exact congrArg Prod.fst hspot.symm
      have harrows := arrowAfter_append rest harrow fun t ht => ⟨honLine t ht, hmore t ht⟩
      rw [List.cons_append]
      simp only [hother, hfirst, harrows]
      rfl

/-- A condition that is no literal is read as parameters, with the arrow behind it. The grammar of
lambdas does not know that the block is one of branches. -/
theorem lambdaParams?_words {condition : Condition} (hfits : condition.Fits)
    (hplain : condition.isLiteral = false) {line : Bool}
    {spots : List (Bool × TokenKind × String)} (h : c.rest.map Token.spot =
      lined line condition.words ++ (false, .punct, "->") :: spots) :
    ∃ params c', c.lambdaParams? = (some params, c') ∧ c'.rest.map Token.spot = spots ∧
      words params.listTokens = condition.words ++ [(.punct, "->")] := by
  obtain ⟨inner, _, hrest, hinner, h⟩ := List.map_eq_append_iff.1 h
  obtain ⟨arrow, rest, rfl, harrow, h⟩ := List.map_eq_cons_iff.1 h
  obtain ⟨-, harrowKind, harrowText⟩ := Token.spot_eq.1 harrow
  have his : arrow.is "->" = true := Token.is_of_text (.inr harrowKind) harrowText
  have hlookahead := lambdaArrow_words hfits hplain hrest hinner his
  rcases hread : c.takeMany inner.length with ⟨tokens, c₁⟩
  have htokens := Cursor.takeMany_take hread
  have hrest₁ := Cursor.takeMany_drop hread
  rw [hrest, List.take_left] at htokens
  rw [hrest, List.drop_left] at hrest₁
  have htake : c₁.take? (·.is "->") = some (arrow, ⟨some arrow, rest⟩) :=
    Cursor.take?_cons hrest₁ his
  refine ⟨⟨inner, arrow⟩, ⟨some arrow, rest⟩, ?_, h, ?_⟩
  · simp [Cursor.lambdaParams?, hlookahead, Cursor.lambdaParams, hread, htokens, htake]
  · rw [LambdaParams.listTokens, words_append, words_eq_map_spot inner, hinner, map_snd_lined]
    simp [harrowKind, harrowText]

/-- No parameters are read in front of a literal. -/
theorem lambdaParams?_eq_none {t : Token} {rest : List Token} (h : c.rest = t :: rest)
    (hkind : t.kind = .str ∨ t.kind = .number) : c.lambdaParams? = (none, c) := by
  have hother : t.is "->" = false := Token.not_is_of_isOneOf
    (Token.not_isOneOf_of_kind hkind ["->"]) (by simp)
  have hplain : t.inLambdaParams = false := by
    rw [Token.inLambdaParams, Token.not_isOneOf_of_kind hkind, Bool.or_false]
    rcases hkind with hkind | hkind <;> simp [Token.isIdent, hkind]
  have hlookahead : c.lambdaArrow = none := by
    rw [Cursor.lambdaArrow, h]
    simp [hother, hplain]
  rw [Cursor.lambdaParams?, hlookahead]
  rfl

/-! ### Entries in their block

The entries are read up to the closing brace. Whether two of them are one statement is seen when
the first has been read: it goes on if the next token is `else`. -/

/-- The layout of entries up to the closing brace. The first of them starts a line if `line` is
true. -/
def block (line last : Bool) : List Entry → List (Bool × TokenKind × String)
  | [] => [(last, .punct, closeBrace)]
  | entry :: more => lined line entry.words ++ block true last more

/-- What the first token of an entry is. -/
theorem Entry.exists_first {entry : Entry} (hfits : entry.Fits) (hmethod : IsName entry.method)
    {tokens : List Token} {line : Bool} {spots : List (Bool × TokenKind × String)}
    (h : tokens.map Token.spot = lined line entry.words ++ spots) :
    ∃ t rest, tokens = t :: rest ∧ t.startsLine = line ∧
      (entry.condition = some .otherwise → t.kind = .ident ∧ t.text = "else") ∧
      ∀ texts, (∀ text ∈ texts, text ∈ Lexer.punctuation ∨ text ∈ keywords) →
        (entry.condition = some .otherwise → "else" ∉ texts) → t.isOneOf texts = false := by
  obtain ⟨condition, method⟩ := entry
  rcases condition with _ | ⟨first, members⟩ | ⟨kind, text⟩ | _ <;>
    obtain ⟨t, rest, rfl, ht, -⟩ := List.map_eq_cons_iff.1 h <;>
    obtain ⟨hline, hkind, htext⟩ := Token.spot_eq.1 ht <;>
    refine ⟨t, rest, rfl, hline, ?_, ?_⟩
  · exact nofun
  · intro texts htexts _
    exact Token.not_isOneOf_of_text (htext ▸ hmethod.not_mem htexts)
  · exact nofun
  · intro texts htexts _
    exact Token.not_isOneOf_of_text (htext ▸ (hfits _ rfl).1.not_mem htexts)
  · exact nofun
  · intro texts _ _
    exact Token.not_isOneOf_of_kind (hkind ▸ hfits _ rfl) texts
  · intro _
    exact ⟨hkind, htext⟩
  · intro texts _ helse
    exact Token.not_isOneOf_of_text (htext ▸ helse rfl)

section Block

variable {list : List Entry} {line last : Bool}

/-- What stands behind the last entry. -/
theorem exists_close (h : c.rest.map Token.spot = block line last []) :
    ∃ t, c.rest = [t] ∧ t.kind = .punct ∧ t.is closeBrace = true := by
  obtain ⟨t, rest, hrest, ht, hnil⟩ := List.map_eq_cons_iff.1 h
  obtain rfl := List.map_eq_nil_iff.1 hnil
  obtain ⟨-, hkind, htext⟩ := Token.spot_eq.1 ht
  exact ⟨t, hrest, hkind, Token.is_of_text (.inr hkind) htext⟩

/-- Behind the last entry the block is closed. -/
theorem isAt_close (h : c.rest.map Token.spot = block line last []) :
    c.isAt closeBrace = true := by
  obtain ⟨t, hrest, -, his⟩ := exists_close h
  rw [Cursor.isAt, Cursor.nextIs_cons hrest, his]

/-- In front of an entry it is not. -/
theorem not_isAt_close {entry : Entry} (hfits : entry.Fits) (hmethod : IsName entry.method)
    (h : c.rest.map Token.spot = block line last (entry :: list)) :
    c.isAt closeBrace = false ∧ c.rest ≠ [] := by
  obtain ⟨t, rest, hrest, -, -, hplain⟩ := Entry.exists_first hfits hmethod h
  have hother : t.isOneOf [closeBrace] = false := by
    refine hplain _ (by decide) ?_
    intro _
    decide
  rw [Cursor.isAt, Cursor.nextIs_cons hrest, hrest]
  exact ⟨Token.not_is_of_isOneOf hother (by simp), List.cons_ne_nil t rest⟩

/-- In a block, entries end where the next one starts, since each of them starts a line and lines
end statements there. -/
theorem endsEntry_block (hmode : mode.lineSensitive = true) (hfits : ∀ entry ∈ list, entry.Fits)
    (hmethods : ∀ entry ∈ list, IsName entry.method) : EndsEntry mode (block true last list) := by
  intro c h
  -- Behind the last entry comes the brace, and otherwise the first token of the next one.
  cases list with
  | nil =>
      obtain ⟨t, hrest, -, his⟩ := exists_close h
      refine ⟨Cursor.endsOperand_of_isCloser hrest
        (List.any_eq_true.2 ⟨closeBrace, by decide, his⟩) (by rw [Token.text_of_is his]; decide),
        Cursor.isAtOnLine_eq_false ?_⟩
      rw [Cursor.isAt, Cursor.nextIs_cons hrest]
      exact Token.not_is_of_is his (by decide)
  | cons entry more =>
      obtain ⟨hentry, -⟩ := List.forall_mem_cons.1 hfits
      obtain ⟨hmethod, -⟩ := List.forall_mem_cons.1 hmethods
      obtain ⟨t, rest, hrest, hline, helse, hplain⟩ := Entry.exists_first hentry hmethod h
      have hbrace : t.isOneOf [openBrace] = false := hplain _ (by decide) fun _ => by decide
      refine ⟨?_, Cursor.isAtOnLine_eq_false ?_⟩
      · by_cases hotherwise : entry.condition = some .otherwise
        · obtain ⟨hkind, htext⟩ := helse hotherwise
          refine Cursor.endsOperand_of_text hrest ?_ (Token.not_isName_of_keyword hkind ?_) <;>
            rw [htext] <;> decide
        · exact Cursor.endsOperand_of_startsBody hmode hrest
            ⟨hline, hplain _ (by decide) fun h => absurd h hotherwise⟩
      · rw [Cursor.isAt, Cursor.nextIs_cons hrest]
        exact Token.not_is_of_isOneOf hbrace (by simp)

/-- In a block, statements end in front of everything but `else`, which would carry the statement in
front of it on. -/
theorem atStatementEnd_block (hmode : mode.lineSensitive = true)
    (hfits : ∀ entry ∈ list, entry.Fits) (hmethods : ∀ entry ∈ list, IsName entry.method)
    (hhead : ∀ entry ∈ list.head?, entry.condition ≠ some .otherwise)
    (h : c.rest.map Token.spot = block true last list) :
    c.atStatementEnd mode = true ∧ c.isAt ";" = false := by
  cases list with
  | nil =>
      obtain ⟨t, hrest, -, his⟩ := exists_close h
      refine ⟨Cursor.atStatementEnd_of_isCloser hrest
        (List.any_eq_true.2 ⟨closeBrace, by decide, his⟩), ?_⟩
      rw [Cursor.isAt, Cursor.nextIs_cons hrest]
      exact Token.not_is_of_is his (by decide)
  | cons entry more =>
      obtain ⟨hentry, -⟩ := List.forall_mem_cons.1 hfits
      obtain ⟨hmethod, -⟩ := List.forall_mem_cons.1 hmethods
      obtain ⟨t, rest, hrest, hline, -, hplain⟩ := Entry.exists_first hentry hmethod h
      have hstarts : t.StartsBody :=
        ⟨hline, hplain _ (by decide) fun heq => absurd heq (hhead entry rfl)⟩
      exact ⟨Cursor.atStatementEnd_of_startsBody hmode hrest hstarts,
        Cursor.not_isAt_of_startsBody (by decide) hrest hstarts⟩

end Block

/-- The statement is that of a group of entries: it has their words, and pruning by the names of
calls removes it if it removes one of theirs. -/
structure IsGroup (group : List Entry) (s : Statement) : Prop where
  words_eq : words s.tokens = group.flatMap Entry.words
  lives : ∀ methods dialect keeps ctx,
    ((Pruner.byMethods methods dialect keeps).visitStatement ctx s).node =
      if group.all (·.method ∉ methods) then some s else none

theorem isGroup_of_livesBy {group : List Entry} {e : Expr}
    (hwords : words e.tokens = group.flatMap Entry.words)
    (h : LivesBy (group.map Entry.method) e) : IsGroup group (.expression e none) := by
  refine ⟨?_, ?_⟩
  · simpa [Statement.tokens] using hwords
  · intro methods dialect keeps ctx
    have hnode := h methods dialect keeps ctx
    rw [List.all_map] at hnode
    rw [Pruner.visitStatement, Outcome.node_bind, hnode]
    split <;> simp_all

section Reading

variable {entry next : Entry} {more : List Entry} {line last : Bool}
  (hmode : mode.lineSensitive = true) (hcaps : mode.caps.commandExpressions = false)

include hmode hcaps

/-- An entry without an `else` behind it is a statement of its own. -/
theorem reads_single (hfits : ∀ e ∈ entry :: more, e.Fits)
    (hmethods : ∀ e ∈ entry :: more, IsName e.method)
    (hnext : ∀ e ∈ more.head?, e.condition ≠ some .otherwise)
    (h : c.rest.map Token.spot = block line last (entry :: more)) :
    ∃ s c', Parser.Reads mode .statement c (.statement s) c' ∧
      c'.rest.map Token.spot = block true last more ∧ IsGroup [entry] s := by
  obtain ⟨hentry, hfits⟩ := List.forall_mem_cons.1 hfits
  obtain ⟨hmethod, hmethods⟩ := List.forall_mem_cons.1 hmethods
  obtain ⟨e, c₁, hread, hrest, hwords, hlives, hquiet⟩ :=
    reads_entry hentry hmethod (endsEntry_block hmode hfits hmethods) h
  obtain ⟨t, rest, hhere, -, -, hplain⟩ := Entry.exists_first hentry hmethod h
  obtain ⟨hends, hsemicolon⟩ := atStatementEnd_block hmode hfits hmethods hnext hrest
  have hheader : endsControlHeader e [] = false := hquiet.noElse
  have hexpr : Parser.Reads mode (.statementExpr false) c (.expr e) c₁ :=
    .statementExpr (.plainExpression hcaps hread) (.tailEnd rfl hends (by rw [hheader]; rfl))
  refine ⟨.expression e none, c₁, .statement_of_expr hhere ?_ hexpr hsemicolon, hrest,
    isGroup_of_livesBy (by simpa using hwords) hlives⟩
  exact hplain _ (by decide) fun _ => by decide

/-- An `else` carries the statement in front of it on, so that the two calls are in one
statement. -/
theorem reads_pair (hfits : ∀ e ∈ [entry, next], e.Fits)
    (hmethods : ∀ e ∈ [entry, next], IsName e.method) (hnext : next.condition = some .otherwise)
    (h : c.rest.map Token.spot = block line last [entry, next]) :
    ∃ s c', Parser.Reads mode .statement c (.statement s) c' ∧
      c'.rest.map Token.spot = block true last [] ∧ IsGroup [entry, next] s := by
  obtain ⟨hentry, hfits⟩ := List.forall_mem_cons.1 hfits
  obtain ⟨hmethod, hmethods⟩ := List.forall_mem_cons.1 hmethods
  obtain ⟨head, c₁, hread, hrest, hwords, hlives, hquiet⟩ :=
    reads_entry hentry hmethod (endsEntry_block hmode hfits hmethods) h
  obtain ⟨e, c₂, hreadNext, hrestNext, hwordsNext, hlivesNext, hquietNext⟩ :=
    reads_entry (hfits next (by simp)) (hmethods next (by simp))
      (endsEntry_block hmode (by simp) (by simp)) hrest
  obtain ⟨t, rest, hhere, -, -, hplain⟩ := Entry.exists_first hentry hmethod h
  obtain ⟨other, rest₁, hother, -, helse, hplainNext⟩ :=
    Entry.exists_first (hfits next (by simp)) (hmethods next (by simp)) hrest
  obtain ⟨hkind, htext⟩ := helse hnext
  obtain ⟨hends, hsemicolon⟩ := atStatementEnd_block hmode (by simp) (by simp) (by simp) hrestNext
  -- The statement is not over on the line of the first entry, as an `else` comes next.
  have hgoes : c₁.atStatementEnd mode = false := by
    refine Cursor.not_atStatementEnd hother (hplainNext _ (by decide) fun _ => by decide) (.inr ?_)
    exact List.any_eq_true.2 ⟨"else", by decide, Token.is_of_text (.inl hkind) htext⟩
  have hheader : endsControlHeader head [e] = false := by
    simp [endsControlHeader, hquietNext.noElse, hquietNext.noParen]
  have hexpr : Parser.Reads mode (.statementExpr false) c (.expr (.sequence head [e])) c₂ :=
    .statementExpr (.plainExpression hcaps hread) (.tailNext rfl hgoes
      (.plainExpression hcaps hreadNext) (.tailEnd rfl hends
        (by rw [List.nil_append, hheader]; rfl)))
  -- The first entry opens no control statement, so its `else` is no body and the two go together.
  have hbody : isControlBody head [] = false := by
    rw [isControlBody, hquiet.opensNone, Bool.false_and]
  refine ⟨.expression (.sequence head [e]) none, c₂, .statement_of_expr hhere ?_ hexpr hsemicolon,
    hrestNext, isGroup_of_livesBy ?_ (hlives.sequence hlivesNext hbody)⟩
  · exact hplain _ (by decide) fun _ => by decide
  · simp [Expr.tokens, Expr.listTokens, hwords, hwordsNext]

/-- The entries of a block are read group by group, up to its closing brace. The recursion is that
of `groups`: one entry or two are taken off in front. -/
theorem reads_block {list : List Entry} (hfits : ∀ e ∈ list, e.Fits)
    (hmethods : ∀ e ∈ list, IsName e.method)
    (hlast : ∀ e ∈ list.dropLast, e.condition ≠ some .otherwise)
    (h : c.rest.map Token.spot = block line last list) :
    ∃ statements c', Parser.Reads mode (.statements true) c (.statements statements) c' ∧
      c'.rest.map Token.spot = block true last [] ∧
        List.Forall₂ IsGroup (groups list) statements := by
  fun_induction groups list generalizing c line with
  | case1 => exact ⟨[], c, .blockEnd (isAt_close h), h, .nil⟩
  | case2 entry =>
      obtain ⟨s, c₁, hread, hrest, hgroup⟩ :=
        reads_single hmode hcaps hfits hmethods (by simp) h
      obtain ⟨hopen, hleft⟩ :=
        not_isAt_close (hfits entry (by simp)) (hmethods entry (by simp)) h
      exact ⟨[s], c₁, .nextStatement hopen hleft hread (.blockEnd (isAt_close hrest)), hrest,
        .cons hgroup .nil⟩
  | case3 entry next more hnext ih =>
      obtain rfl : more = [] := by
        cases more with
        | nil => rfl
        | cons third more => exact absurd hnext (hlast next (by simp))
      obtain ⟨s, c₁, hread, hrest, hgroup⟩ := reads_pair hmode hcaps hfits hmethods hnext h
      obtain ⟨hopen, hleft⟩ :=
        not_isAt_close (hfits entry (by simp)) (hmethods entry (by simp)) h
      exact ⟨[s], c₁, .nextStatement hopen hleft hread (.blockEnd (isAt_close hrest)), hrest,
        .cons hgroup .nil⟩
  | case4 entry next more hnext ih =>
      obtain ⟨s, c₁, hread, hrest, hgroup⟩ :=
        reads_single hmode hcaps hfits hmethods (by simpa using hnext) h
      obtain ⟨hopen, hleft⟩ :=
        not_isAt_close (hfits entry (by simp)) (hmethods entry (by simp)) h
      obtain ⟨statements, c₂, hmore, hrest₂, hgroups⟩ :=
        ih (fun e he => hfits e (by simp [he])) (fun e he => hmethods e (by simp [he]))
          (fun e he => hlast e (by simp [he])) hrest
      exact ⟨s :: statements, c₂, .nextStatement hopen hleft hread hmore, hrest₂,
        .cons hgroup hgroups⟩

end Reading

/-! ### The block and its header -/

theorem block_branches (last : Bool) (branches : List Branch) :
    block true last (branches.map Branch.entry) =
      branches.flatMap (fun branch => lined true branch.words) ++ [(last, .punct, closeBrace)] := by
  induction branches with
  | nil => rfl
  | cons branch branches ih =>
      rw [List.map_cons, block, ih, List.flatMap_cons, List.append_assoc]
      rfl

/-- The parameters of the block are read up to the first entry. -/
theorem reads_params {first : Branch} {more : List Branch} {last : Bool}
    (hfits : first.condition.Fits)
    (h : c.rest.map Token.spot = block true last ((first :: more).map Branch.entry)) :
    ∃ line read c', c.lambdaParams? = (read, c') ∧
      c'.rest.map Token.spot = block line last (entries (first :: more)) ∧
        words (partTokens LambdaParams.listTokens read) = params (first :: more) := by
  obtain ⟨condition, method⟩ := first
  -- A literal is no parameter, so none is read; any other condition is taken for the parameters.
  by_cases hliteral : condition.isLiteral = true
  · obtain ⟨kind, text, rfl⟩ : ∃ kind text, condition = .literal kind text := by
      cases condition with
      | literal kind text => exact ⟨kind, text, rfl⟩
      | name => cases hliteral
      | otherwise => cases hliteral
    obtain ⟨t, rest, hrest, ht, -⟩ := List.map_eq_cons_iff.1 h
    obtain ⟨-, hkind, -⟩ := Token.spot_eq.1 ht
    exact ⟨true, none, c, lambdaParams?_eq_none hrest (hkind ▸ hfits), h, rfl⟩
  · replace h : c.rest.map Token.spot = lined true condition.words ++ (false, .punct, "->") ::
        (onLine (callWords method) ++ block true last (more.map Branch.entry)) := by
      rw [h, List.map_cons, block, entry_words, Branch.words, lined_append condition.words_ne_nil,
        List.append_assoc]
      rfl
    obtain ⟨read, c', hread, hrest, hwords⟩ :=
      lambdaParams?_words hfits (eq_false_of_ne_true hliteral) h
    refine ⟨false, some read, c', hread, ?_, ?_⟩
    · rw [hrest, entries, headEntry, if_neg hliteral]
      rfl
    · rw [partTokens_some, hwords, params, if_neg hliteral]

/-- A `when` with a subject in parentheses and a block. -/
def statement (keyword opening subject closing : Token) (lambda : Lambda) : Statement :=
  .expression (.sequence (.atom keyword) [.paren opening (.atom subject) closing, .lambda lambda])
    none

theorem words_statement (keyword opening subject closing : Token) (lambda : Lambda) :
    words (statement keyword opening subject closing lambda).tokens =
      words [keyword, opening, subject, closing] ++ words lambda.tokens := by
  simp [statement, Statement.tokens, Expr.tokens, Expr.listTokens]

/-- The block of a `when` at the end of a script is read with its entries in groups. -/
theorem reads_lambda {w : When} (hw : w.WellFormed) (hcaps : mode.caps.commandExpressions = false)
    {brace : Token} {rest : List Token} {lastLine : Bool} (hrest : c.rest = brace :: rest)
    (hkind : brace.kind = .punct) (htext : brace.text = openBrace)
    (h : rest.map Token.spot = block true lastLine (w.branches.map Branch.entry)) :
    ∃ read body last, Parser.Reads mode .commandOrExpression c
        (.expr (.lambda ⟨brace, read, body, last⟩)) ⟨some last, []⟩ ∧
      words (partTokens LambdaParams.listTokens read) = params w.branches ∧
      List.Forall₂ IsGroup (groups (entries w.branches)) body ∧
      words [last] = [(.punct, closeBrace)] := by
  obtain ⟨subject, branches⟩ := w
  obtain ⟨first, more, rfl⟩ := List.exists_cons_of_ne_nil hw.nonempty
  obtain ⟨line, read, c₁, hparams, hrest₁, hparamWords⟩ :=
    reads_params (c := ⟨some brace, rest⟩) (hw.conditions first (by simp)) h
  have hinner : mode.inBlock.caps.commandExpressions = false := hcaps
  obtain ⟨body, c₂, hbody, hrest₂, hgroups⟩ := reads_block rfl hinner hw.fits_entries
    hw.isName_entries (otherwise_entries hw.otherwise_last) hrest₁
  obtain ⟨last, hrest₂, hlastKind, hclosing⟩ := exists_close hrest₂
  have hopening : brace.is openBrace = true := Token.is_of_text (.inr hkind) htext
  have hread : Parser.Reads mode .lambda c (.lambda (some ⟨brace, read, body, last⟩))
      ⟨some last, []⟩ :=
    .lambda (Cursor.take_cons hrest hopening) hparams hbody (Cursor.take_cons hrest₂ hclosing)
  refine ⟨read, body, last, .plainExpression hcaps (.expression_of_primary ?_
    (.lambdaExpr ?_ ?_ hread) (Cursor.endsOperand_nil rfl)), hparamWords, hgroups, ?_⟩
  · rw [Cursor.nextIs_cons hrest]
    refine Token.not_isOneOf_of_text ?_
    rw [htext]
    decide
  · rw [Cursor.nextIs_cons hrest, Token.not_isName_of_kind (by simp [hkind])]
  · rw [Cursor.isAt, Cursor.nextIs_cons hrest, hopening]
  · simp [hlastKind, Token.text_of_is hclosing]

/-- The keyword, the subject in parentheses and the block that ends the text are one statement. -/
theorem reads_header {keyword opening name closing brace last : Token} {rest : List Token}
    {line : Bool} {subject : String} {block : Lambda}
    (hrest : c.rest = keyword :: opening :: name :: closing :: brace :: rest)
    (hkeyword : keyword.spot = (line, .ident, "when"))
    (hopening : opening.spot = (false, .punct, "("))
    (hname : name.spot = (false, .ident, subject)) (hsubject : IsName subject)
    (hclosing : closing.spot = (false, .punct, ")"))
    (hbrace : brace.spot = (false, .punct, openBrace))
    (hblock : Parser.Reads mode .commandOrExpression ⟨some closing, brace :: rest⟩
      (.expr (.lambda block)) ⟨some last, []⟩) :
    Parser.Reads mode .statement c (.statement (statement keyword opening name closing block))
      ⟨some last, []⟩ := by
  obtain ⟨-, hkeywordKind, hkeywordText⟩ := Token.spot_eq.1 hkeyword
  obtain ⟨hopeningLine, hopeningKind, hopeningText⟩ := Token.spot_eq.1 hopening
  obtain ⟨-, hnameKind, rfl⟩ := Token.spot_eq.1 hname
  obtain ⟨-, hclosingKind, hclosingText⟩ := Token.spot_eq.1 hclosing
  obtain ⟨hbraceLine, hbraceKind, hbraceText⟩ := Token.spot_eq.1 hbrace
  have hhead : Parser.Reads mode .commandOrExpression c (.expr (.atom keyword))
      ⟨some keyword, opening :: name :: closing :: brace :: rest⟩ := by
    refine .command_of_keyword hrest hkeywordKind (by rw [hkeywordText]; decide)
      (Cursor.endsOperand_of_text rfl ?_ (Token.not_isName_of_kind (by simp [hopeningKind])))
    rw [hopeningText]
    decide
  have hparen : Parser.Reads mode .commandOrExpression
      ⟨some keyword, opening :: name :: closing :: brace :: rest⟩
      (.expr (.paren opening (.atom name) closing)) ⟨some closing, brace :: rest⟩ := by
    refine .command_of_parenName rfl hopeningKind hopeningText
      (Token.isName_of_kind hnameKind hsubject) (hsubject.not_mem (by decide))
      (Token.is_of_text (.inr hclosingKind) hclosingText)
      (Cursor.endsOperand_of_text rfl ?_ (Token.not_isName_of_kind (by simp [hbraceKind])))
    rw [hbraceText]
    decide
  -- Nothing in the header starts a line, so the statement goes on up to the block.
  have hgoes : ∀ {t rest} {c : Cursor}, c.rest = t :: rest → t.startsLine = false →
      t.text ∉ ";" :: closers → c.atStatementEnd mode = false := fun hrest hline htext =>
    Cursor.not_atStatementEnd hrest (Token.not_isOneOf_of_text htext) (.inl hline)
  refine .statement_of_expr hrest (Token.not_isOneOf_of_text (by rw [hkeywordText]; decide))
    (.statementExpr hhead (.tailNext rfl ?_ hparen (.tailNext rfl ?_ hblock
      (.tailEnd rfl rfl (Bool.and_false _))))) rfl
  · exact hgoes rfl hopeningLine (by rw [hopeningText]; decide)
  · exact hgoes rfl hbraceLine (by rw [hbraceText]; decide)

/-- A script with a `when` is read as one statement, with the entries of its block in groups. The
condition of the first entry is among the parameters of the block if it is no literal. -/
theorem parse_laid {w : When} (hw : w.WellFormed) {source : String}
    (h : w.Laid (lex source).tokens) :
    ∃ keyword opening subject closing brace read body last,
      parse source .kotlin = .ok ⟨.kotlin,
        [statement keyword opening subject closing ⟨brace, read, body, last⟩], (lex source).eof⟩ ∧
      words [keyword, opening, subject, closing, brace] = [(.ident, "when"), (.punct, "("),
        (.ident, w.subject), (.punct, ")"), (.punct, openBrace)] ∧
      words (partTokens LambdaParams.listTokens read) = params w.branches ∧
      List.Forall₂ IsGroup (groups (entries w.branches)) body ∧
      words [last] = [(.punct, closeBrace)] := by
  obtain ⟨firstLine, lastLine, h⟩ := h
  obtain ⟨keyword, _, hrest, hkeyword, h⟩ := List.map_eq_cons_iff.1 h
  obtain ⟨opening, _, rfl, hopening, h⟩ := List.map_eq_cons_iff.1 h
  obtain ⟨name, _, rfl, hname, h⟩ := List.map_eq_cons_iff.1 h
  obtain ⟨closing, _, rfl, hclosing, h⟩ := List.map_eq_cons_iff.1 h
  obtain ⟨brace, rest, rfl, hbrace, hblock⟩ := List.map_eq_cons_iff.1 h
  replace hblock := hblock.trans (block_branches lastLine w.branches).symm
  obtain ⟨-, hbraceKind, hbraceText⟩ := Token.spot_eq.1 hbrace
  let mode : Mode := ⟨Dialect.kotlin.capabilities, true⟩
  obtain ⟨read, body, last, hlambda, hparams, hgroups, hlast⟩ :=
    reads_lambda (c := ⟨some closing, brace :: rest⟩) hw
      (show mode.caps.commandExpressions = false from rfl) rfl hbraceKind hbraceText hblock
  have hstatement := reads_header (c := ⟨none, (lex source).tokens⟩) hrest hkeyword hopening hname
    hw.subject hclosing hbrace hlambda
  refine ⟨keyword, opening, name, closing, brace, read, body, last,
    parse_of_reads (.nextStatement rfl (by simp [hrest]) hstatement (.textEnd rfl)), ?_, hparams,
    hgroups, hlast⟩
  rw [words_eq_map_spot]
  simp [hkeyword, hopening, hname, hclosing, hbrace]

/-! ### Visiting the script

The visit of the block decides for each statement. What is left is compared by words, as trivia
may have been handed on. -/

section Visiting

variable (methods : List String) (dialect : Dialect) (keeps : Statement → Bool)

/-- The statements that stay of a block are those of the groups in which no call is removed. Each of
them has the words of its entries. -/
theorem words_groups (ctx : Context) {groups : List (List Entry)} {body : List Statement}
    (h : List.Forall₂ IsGroup groups body) :
    words (Statement.listTokens (body.filterMap fun s =>
        ((Pruner.byMethods methods dialect keeps).visitStatement ctx s).node)) =
      ((groups.filter fun group => group.all (·.method ∉ methods)).flatten).flatMap
        Entry.words := by
  induction h with
  | nil => rfl
  | @cons group s groups body hgroup _ ih =>
      have hlives := hgroup.lives methods dialect keeps ctx
      by_cases hall : group.all (·.method ∉ methods) = true
      · rw [if_pos hall] at hlives
        rw [List.filter_cons_of_pos (by exact hall), List.filterMap_cons, hlives]
        simp only [Statement.listTokens, words_append, ih, hgroup.words_eq, List.flatten_cons,
          List.flatMap_append]
      · rw [if_neg hall] at hlives
        rw [List.filter_cons_of_neg (by exact hall), List.filterMap_cons, hlives]
        exact ih

theorem words_visitInPlace (p : Pruner) (ctx : Context) (statements : List Statement)
    (trailer : String) :
    words (Statement.listTokens (p.visitInPlace ctx statements trailer).1.1) =
      words (Statement.listTokens
        (statements.filterMap fun s => (p.visitStatement ctx s).node)) := by
  have hplaced := Statement.placed_sweep ((p.visitStatements ctx statements).map Outcome.node)
    true statements trailer
    (by rw [Pruner.visitStatements_eq_map, List.length_map, List.length_map])
  rw [Pruner.visitInPlace_eq_sweep p ctx (Pruner.placed_self statements),
    Statement.words_of_placed hplaced, Pruner.visitStatements_eq_map, List.map_map,
    List.filterMap_map]
  rfl

/-- Of a block those groups stay in which no call is removed. The braces stay around them, and so do
the parameters. -/
theorem words_visitLambda (brace last : Token) (read : Option LambdaParams) {list : List Entry}
    {body : List Statement} (h : List.Forall₂ IsGroup (groups list) body) :
    ∃ l, ((Pruner.byMethods methods dialect keeps).visitLambda {} ⟨brace, read, body, last⟩).node =
        some l ∧
      words l.tokens = words [brace] ++ words (partTokens LambdaParams.listTokens read) ++
        (left methods list).flatMap Entry.words ++ words [last] := by
  have hadmits : ∀ s, (Pruner.byMethods methods dialect keeps).admits {} s = true := fun _ => rfl
  have hkept := Statement.sift_of_keep hadmits body true body last.leading rfl
  rw [Pruner.visitLambda_eq_inPlace, hkept]
  refine ⟨_, rfl, ?_⟩
  rw [Lambda.tokens_mk, words_cons, words_append, words_append, words_visitInPlace,
    words_groups methods dialect keeps {} h, left]
  simp [Token.withLeading]

theorem words_visitStatement (keyword opening subject closing brace last : Token)
    (read : Option LambdaParams) {list : List Entry} {body : List Statement}
    (h : List.Forall₂ IsGroup (groups list) body) :
    ∃ s, ((Pruner.byMethods methods dialect keeps).visitStatement {}
        (statement keyword opening subject closing ⟨brace, read, body, last⟩)).node = some s ∧
      words s.tokens = words [keyword, opening, subject, closing, brace] ++
        words (partTokens LambdaParams.listTokens read) ++
          (left methods list).flatMap Entry.words ++ words [last] := by
  obtain ⟨l, hnode, hwords⟩ := words_visitLambda methods dialect keeps brace last read h
  refine ⟨statement keyword opening subject closing l, ?_, ?_⟩
  · simp [statement, Pruner.visitStatement, Pruner.visitExpr, Pruner.visitTail, hnode]
  · rw [words_statement, hwords]
    simp

end Visiting

/-- What pruning by the names of calls leaves of a script with a `when`. -/
theorem words_visitScript {w : When} (hw : w.WellFormed) {source : String}
    (h : w.Laid (lex source).tokens) (methods : List String) (dialect : Dialect)
    (keeps : Statement → Bool) :
    ∃ script, parse source .kotlin = .ok script ∧
      words ((Pruner.byMethods methods dialect keeps).visitScript script).1.tokens =
        leftWords methods w := by
  obtain ⟨keyword, opening, subject, closing, brace, read, body, last, hparse, hheader, hparams,
    hgroups, hlast⟩ := parse_laid hw h
  refine ⟨_, hparse, ?_⟩
  obtain ⟨s, hnode, hwords⟩ := words_visitStatement methods dialect keeps keyword opening subject
    closing brace last read hgroups
  rw [Pruner.visitScript_eq_inPlace]
  show words (Statement.listTokens (Pruner.visitInPlace _ {} _ _).1.1) = _
  rw [words_visitInPlace, List.filterMap_cons, hnode]
  simp [Statement.listTokens, hwords, hheader, hparams, hlast, leftWords, around]

/-- A script that consists of a `when` is read, and pruning by the names of calls leaves of its
block the condition of the first branch with its arrow, if that is no literal, and those statements
in which no call is removed, where `else` is in one statement with the branch in front of it. So
each branch goes or stays on its own exactly if the first call stays or has a literal in front of
it, and the call of `else` goes or stays with the one in front of it. -/
theorem branches_apart_iff {w : When} (hw : w.WellFormed) {source : String}
    (h : w.Laid (lex source).tokens) (methods : List String) (dialect : Dialect)
    (keeps : Statement → Bool) :
    ∃ script, parse source .kotlin = .ok script ∧
      words ((Pruner.byMethods methods dialect keeps).visitScript script).1.tokens =
        leftWords methods w ∧
      (words ((Pruner.byMethods methods dialect keeps).visitScript script).1.tokens =
          ownWords methods w ↔
        (∀ branch ∈ w.branches.head?,
          branch.condition.isLiteral = true ∨ branch.method ∉ methods) ∧
        ∀ before branch method, w.branches = before ++ [branch, ⟨.otherwise, method⟩] →
          (branch.method ∈ methods ↔ method ∈ methods)) := by
  obtain ⟨script, hparse, hwords⟩ := words_visitScript hw h methods dialect keeps
  refine ⟨script, hparse, hwords, ?_⟩
  rw [hwords]
  exact leftWords_eq_iff hw

/-- A branch in the middle goes alone, also if its condition is a dotted name. -/
theorem branches_apart_iff_middle :
    (⟨"e", [⟨.literal .number "1", "keep"⟩, ⟨.name "y" ["z"], "rm"⟩, ⟨.name "x" [], "keep"⟩,
      ⟨.otherwise, "keep"⟩]⟩ : When).WellFormed ∧
    (⟨"e", [⟨.literal .number "1", "keep"⟩, ⟨.name "y" ["z"], "rm"⟩, ⟨.name "x" [], "keep"⟩,
      ⟨.otherwise, "keep"⟩]⟩ : When).Laid (lex ("when (e) \x7b\n  1 -> keep()\n  y.z -> rm()\n" ++
        "  x -> keep()\n  else -> keep()\n\x7d")).tokens ∧
    ∃ script, parse ("when (e) \x7b\n  1 -> keep()\n  y.z -> rm()\n" ++
        "  x -> keep()\n  else -> keep()\n\x7d") .kotlin = .ok script ∧
      words ((Pruner.byMethods ["rm"] .kotlin fun _ => true).visitScript script).1.tokens =
        ownWords ["rm"] ⟨"e", [⟨.literal .number "1", "keep"⟩, ⟨.name "y" ["z"], "rm"⟩,
          ⟨.name "x" [], "keep"⟩, ⟨.otherwise, "keep"⟩]⟩ := by
  have hw : (⟨"e", [⟨.literal .number "1", "keep"⟩, ⟨.name "y" ["z"], "rm"⟩,
      ⟨.name "x" [], "keep"⟩, ⟨.otherwise, "keep"⟩]⟩ : When).WellFormed := by
    decide +kernel
  have hlaid : (⟨"e", [⟨.literal .number "1", "keep"⟩, ⟨.name "y" ["z"], "rm"⟩,
      ⟨.name "x" [], "keep"⟩, ⟨.otherwise, "keep"⟩]⟩ : When).Laid
        (lex ("when (e) \x7b\n  1 -> keep()\n  y.z -> rm()\n" ++
          "  x -> keep()\n  else -> keep()\n\x7d")).tokens :=
    ⟨false, true, by decide +kernel⟩
  obtain ⟨script, hparse, hleft, -⟩ := branches_apart_iff hw hlaid ["rm"] .kotlin fun _ => true
  refine ⟨hw, hlaid, script, hparse, hleft.trans ?_⟩
  decide

/-- A first branch with a name leaves its condition behind, and a call that stays goes with the one
of the `else` behind it. -/
theorem not_branches_apart :
    (¬∀ (w : When) (source : String) (methods : List String) (dialect : Dialect)
        (keeps : Statement → Bool),
      w.WellFormed → w.Laid (lex source).tokens →
        (∀ branch ∈ w.branches, branch.condition ≠ .otherwise) →
          ∃ script, parse source .kotlin = .ok script ∧
            words ((Pruner.byMethods methods dialect keeps).visitScript script).1.tokens =
              ownWords methods w) ∧
    ¬∀ (w : When) (source : String) (methods : List String) (dialect : Dialect)
        (keeps : Statement → Bool),
      w.WellFormed → w.Laid (lex source).tokens →
        (∀ branch ∈ w.branches.head?, branch.condition.isLiteral = true) →
          ∃ script, parse source .kotlin = .ok script ∧
            words ((Pruner.byMethods methods dialect keeps).visitScript script).1.tokens =
              ownWords methods w := by
  constructor
  · intro h
    have hw : (⟨"e", [⟨.name "x" [], "rm"⟩, ⟨.name "y" [], "keep"⟩]⟩ : When).WellFormed := by
      decide +kernel
    have hlaid : (⟨"e", [⟨.name "x" [], "rm"⟩, ⟨.name "y" [], "keep"⟩]⟩ : When).Laid
        (lex "when (e) \x7b\n    x -> rm()\n    y -> keep()\n\x7d\n").tokens :=
      ⟨false, true, by decide +kernel⟩
    obtain ⟨script, hparse, hown⟩ := h _ _ ["rm"] .kotlin (fun _ => true) hw hlaid (by simp)
    obtain ⟨script', hparse', hleft⟩ := words_visitScript hw hlaid ["rm"] .kotlin fun _ => true
    obtain rfl := Except.ok.inj (hparse.symm.trans hparse')
    exact absurd (hleft.symm.trans hown) (by decide)
  · intro h
    have hw : (⟨"e", [⟨.literal .str "\"x\"", "rm"⟩, ⟨.name "y" [], "keep"⟩,
        ⟨.otherwise, "rm"⟩]⟩ : When).WellFormed := by
      decide +kernel
    have hlaid : (⟨"e", [⟨.literal .str "\"x\"", "rm"⟩, ⟨.name "y" [], "keep"⟩,
        ⟨.otherwise, "rm"⟩]⟩ : When).Laid (lex
          "when (e) \x7b\n  \"x\" -> rm()\n  y -> keep()\n  else -> rm()\n\x7d\n").tokens :=
      ⟨false, true, by decide +kernel⟩
    obtain ⟨script, hparse, hown⟩ :=
      h _ _ ["rm"] .kotlin (fun _ => true) hw hlaid (by simp [Condition.isLiteral])
    obtain ⟨script', hparse', hleft⟩ := words_visitScript hw hlaid ["rm"] .kotlin fun _ => true
    obtain rfl := Except.ok.inj (hparse.symm.trans hparse')
    exact absurd (hleft.symm.trans hown) (by decide)

end BuildPrune.When
