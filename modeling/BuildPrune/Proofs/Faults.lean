import BuildPrune.Proofs.Brackets

/-!
# BuildPrune.Proofs.Faults

**Parsing is safe, and its errors point into the text** (`parse_safe`). A production stops early
only where the grammar has an error for it, and then in front of a token of the text or at its end.

* `Problem.Fits` says what stands in front of each problem. No problem fits a token that the grammar
  has already tested for: a missing `(` would be the fault of reading one where none was seen. The
  bound on the depth fits nothing.
* `Explained c x` says that all faults of `x` fit a token from the cursor `c` on. It is closed under
  `bind`, so the productions are followed step by step (`Safe`).
* Between two calls of the same production a token is read (`Reads.progress`), so with 16 for each
  token and a rank for each production the depth suffices.
* `Cursor.InRange` says that what is read after looking ahead is there to be read.
-/

namespace BuildPrune

/-! ### Faults and the tokens in front of which they show

A production that fails does so at the cursor where a test has failed. All that is lost between
the start of the production and that cursor are tokens that were read, so the token of the fault
is one of the text. -/

/-- The problem can show in front of this token, or at the end of the text. A problem that fits
neither cannot show at all. -/
def Problem.Fits (found : Option Token) : Problem → Prop
  | .expected text => text ∈ closers ∧ found.any (·.is text) = false
  | .unclosedBlock => found = none
  | .expectedName => found.any Token.isIdent = false
  | .expectedExpression => found = none
  | .expectedMember dot =>
    dot ∈ memberDots ∧ (found.any fun t => t.kind == .ident || t.kind == .str) = false
  | .unexpectedInput => found.any (·.kind == .unknown) = true
  | .unexpectedCloser => found.any Token.isCloser = true
  | .tooDeep => False

namespace Cursor

variable {c c' : Cursor}

/-- The fault shows in front of a token from the cursor on, or at the end, where it fits. -/
def Explains (c : Cursor) (fault : Fault) : Prop :=
  ∃ left, left <:+ c.rest ∧ fault.found = left.head? ∧ fault.problem.Fits fault.found

/-- A cursor that passes tokens stands in front of a later part of the same list. -/
theorem Passes.suffix (h : c.Passes c') : c'.rest <:+ c.rest := by
  obtain ⟨read, hrest, -⟩ := h
  exact ⟨read, hrest.symm⟩

theorem Passes.length_le (h : c.Passes c') : c'.rest.length ≤ c.rest.length :=
  h.suffix.length_le

theorem length_lt_of_rest {t : Token} (h : c.rest = t :: c'.rest) :
    c'.rest.length < c.rest.length := by
  rw [h, List.length_cons]
  exact Nat.lt_succ_self _

/-- A test for a spelling and for something else is a test for the spelling. The grammar tests for
more than it reads with, as for a brace on the same line, and reads with the spelling alone. -/
theorem isAt_of_nextIs {text : String} {also : Token → Bool}
    (h : c.nextIs (fun t => t.is text && also t) = true) : c.isAt text = true := by
  obtain ⟨t, hnext, ht⟩ := (Option.any_eq_true _ _).1 h
  rw [Bool.and_eq_true] at ht
  exact (Option.any_eq_true _ _).2 ⟨t, hnext, ht.1⟩

end Cursor

/-- All faults of the computation show from the cursor on, where they fit. -/
def Explained {α : Type} (c : Cursor) (x : Except Fault α) : Prop :=
  ∀ fault, x = .error fault → c.Explains fault

namespace Explained

variable {α β : Type} {c c' : Cursor}

theorem ok (a : α) : Explained c (.ok a) := by
  intro fault h
  cases h

/-- Two computations one after the other stop at explained faults if each does, where the second is
asked about the answers of the first only. -/
theorem bind {x : Except Fault α} {f : α → Except Fault β} (hx : Explained c x)
    (hf : ∀ a, x = .ok a → Explained c (f a)) : Explained c (x >>= f) := by
  intro fault h
  cases x with
  | error early =>
      obtain rfl : early = fault := Except.error.inj h
      exact hx early rfl
  | ok a => exact hf a rfl fault h

/-- What shows further on shows from here on: a fault is explained by a part of the tokens that are
left, and what is left later is a part of what is left now. -/
theorem after {x : Except Fault α} (h : c.Passes c') (hx : Explained c' x) : Explained c x := by
  intro fault herror
  obtain ⟨left, hleft, hfits⟩ := hx fault herror
  exact ⟨left, hleft.trans h.suffix, hfits⟩

/-- A fault raised at the cursor shows in front of the next token, so it is explained if it fits
that one. -/
theorem fault {problem : Problem} (h : problem.Fits c.next) :
    Explained c (.error (c.fault problem) : Except Fault α) := by
  intro fault herror
  cases herror
  exact ⟨c.rest, List.suffix_refl _, rfl, h⟩

/-- Reading a token by a test raises its problem only where the test fails. So the problem has to
fit where the test fails, and nowhere else. -/
theorem take {p : Token → Bool} {problem : Problem} (h : c.nextIs p = false → problem.Fits c.next) :
    Explained c (c.take p problem) := by
  unfold Cursor.take
  split
  · exact ok _
  · next hnone => exact fault (h (Cursor.take?_none hnone))

/-- A closing bracket is the one thing that the grammar expects without having tested for it, and it
may be missing. -/
theorem expect_closer {text : String} (h : text ∈ closers) : Explained c (c.expect text) :=
  take fun hnot => ⟨h, hnot⟩

/-- Behind a token that was read, what is left is shorter. So the computation that goes on behind it
has 16 more of depth for itself than it would have had in front.

The token must be known, because a cursor passes known tokens only (`Cursor.Passes`). -/
theorem take_next {p : Token → Bool} {problem : Problem} {f : Token × Cursor → Except Fault β}
    (hfits : c.nextIs p = false → problem.Fits c.next)
    (hknown : ∀ t, p t = true → t.kind ≠ .unknown)
    (hf : ∀ t c', c'.rest.length < c.rest.length → Explained c' (f (t, c'))) :
    Explained c (c.take p problem >>= f) := by
  refine bind (take hfits) fun read hread => ?_
  obtain ⟨t, c₁⟩ := read
  obtain ⟨hrest, ht, -⟩ := Cursor.take_ok hread
  exact after (.of_one hrest (hknown t ht)) (hf t c₁ (Cursor.length_lt_of_rest hrest))

/-- Reading a name and going on behind it. Where no name stands, the problem says so and fits. -/
theorem name_next {f : Token × Cursor → Except Fault β}
    (hf : ∀ t c', c'.rest.length < c.rest.length → Explained c' (f (t, c'))) :
    Explained c (c.name >>= f) :=
  take_next id (fun _ ht => (Token.IsPlain.of_isIdent ht).1) hf

/-- A token that has been tested for is there, so reading it is no fault. This is how the
productions that open with a fixed token start. -/
theorem expect_next {text : String} {f : Token × Cursor → Except Fault β} (hat : c.isAt text = true)
    (hf : ∀ t c', c'.rest.length < c.rest.length → Explained c' (f (t, c'))) :
    Explained c (c.expect text >>= f) := by
  refine take_next (fun hnot => ?_) (fun _ => Token.known_of_is) hf
  rw [Cursor.isAt, hnot] at hat
  contradiction

/-- A production goes on behind a part that is read only if it is `present`. The parts of a call are
read in this way. -/
theorem optionally {present : Bool} {read : Except Fault (α × Cursor)}
    {next : Option α × Cursor → Except Fault β} (hread : present = true → Explained c read)
    (hnext : ∀ part, BuildPrune.optionally present read c = .ok part → Explained c (next part)) :
    Explained c (if present = true then do
        let (a, c) ← read
        let part ← pure (some a, c)
        next part
      else do
        let part ← pure (none, c)
        next part) := by
  cases present with
  | false => exact hnext (none, c) rfl
  | true =>
      refine bind (hread rfl) fun part ha => ?_
      obtain ⟨a, c₁⟩ := part
      exact hnext (some a, c₁) (by rw [ha]; rfl)

end Explained

/-! ### Imports -/

/-- An import that was tested for stops only where a name of its path is missing. -/
theorem Explained.importing {c : Cursor} (h : c.isAt "import" = true) :
    Explained c c.importing := by
  unfold Cursor.importing
  refine .expect_next h fun keyword c₁ _ => ?_
  rcases hmodifier : (if c₁.secondIs (·.is ".") then (none, c₁) else c₁.optional "static")
    with ⟨modifier, c₂⟩
  have hpassed : c₁.Passes c₂ := by
    split at hmodifier
    · cases hmodifier
      exact .refl c₁
    · exact .of_optional hmodifier
  simp only [hmodifier]
  refine .after hpassed (.name_next fun first c₃ _ => ?_)
  rcases hmore : Cursor.importPath c₃.rest.length c₃ with ⟨more, c₄⟩
  refine .after (.of_plain (Cursor.importPath_rest hmore) (Cursor.importPath_plain hmore)) ?_
  split
  · next has =>
      refine .expect_next (Cursor.isAt_of_nextIs has) fun as c₅ _ => ?_
      refine .name_next fun _ _ _ => ?_
      exact .ok _
  · exact .ok _

namespace Parser

/-! ### Progress

A production that has read nothing would call itself at the same place for ever. Lists, chains and
operators go round only behind a piece that has tokens, or behind a token that was taken. -/

section

variable {mode : Mode} {task : Task} {piece : Piece} {c c' : Cursor}

/-- The productions that read at least one token whenever they succeed. -/
def Task.consumes : Task → Bool
  | .statement | .statementExpr _ | .commandOrExpression | .commandItems | .expression | .unary
  | .primary | .parenthesized | .sequence _ | .arguments | .brackets | .lambda | .annotated => true
  | _ => false

theorem Task.tokens_of_consumes (h : task.consumes = true) : task.tokens = [] := by
  cases task <;> first | rfl | cases h

/-- What such a production answers has a token. So it is enough to look at the tree that is read,
and the cursor need not be followed a second time. -/
theorem Reads.tokens_ne_nil (h : Reads mode task c piece c') (htask : task.consumes = true) :
    piece.tokens ≠ [] := by
  have hexpr : ∀ e : Expr, (Piece.expr e).tokens ≠ [] := by
    intro e
    obtain ⟨rest, htokens, -⟩ := e.exists_tokens
    simp [Piece.tokens, htokens]
  -- An answer that is no expression is opened as its rule builds it.
  cases h with
  | emptyStatement | importStatement | exprStatement =>
      obtain ⟨rest, htokens, -⟩ := Statement.exists_tokens _
      rw [Piece.tokens, htokens]
      exact List.cons_ne_nil _ _
  | @lastCommandItem _ _ _ _ expr | @nextCommandItem _ _ _ _ _ expr =>
      obtain ⟨rest, htokens, -⟩ := expr.exists_tokens
      simp [Piece.tokens, Item.listTokens, Item.tokens, htokens]
  | arguments => simp [Piece.tokens, Arguments.tokens]
  | brackets => simp [Piece.tokens, Brackets.tokens]
  | lambda => simp [Piece.tokens, Lambda.tokens_mk]
  | _ => first | exact hexpr _ | cases htask

/-- What such a production leaves is shorter than what it was started on: the tokens of its answer
were read from the cursor. -/
theorem Reads.progress (h : Reads mode task c piece c') (htask : task.consumes = true) :
    c'.rest.length < c.rest.length := by
  have hall := h.tokens_append_rest
  rw [Task.tokens_of_consumes htask, List.nil_append] at hall
  have hread := List.length_pos_iff.2 (h.tokens_ne_nil htask)
  rw [hall, List.length_append]
  omega

end

/-! ### The faults of the productions

The depth that a production needs is 16 for each token that is left and, on top, its rank: a call at
the same place goes to a lower rank, and any other call has a token less in front of it. -/

/-- At depth `n`, each production that has enough of it stops only at explained faults. The ones
that open with a fixed token are started in front of it. -/
structure Safe (n : Nat) : Prop where
  statements {mode inBlock c} (hdepth : 16 * c.rest.length + 8 ≤ n) :
    Explained c (Parser.statements n mode inBlock c)
  statement {mode c} (hdepth : 16 * c.rest.length + 7 ≤ n) :
    Explained c (Parser.statement n mode c)
  statementExpr {mode isBody c} (hdepth : 16 * c.rest.length + 6 ≤ n) :
    Explained c (Parser.statementExpr n mode isBody c)
  statementTail {mode isBody head before c} (hdepth : 16 * c.rest.length + 7 ≤ n) :
    Explained c (Parser.statementTail n mode isBody head before c)
  commandOrExpression {mode c} (hdepth : 16 * c.rest.length + 5 ≤ n) :
    Explained c (Parser.commandOrExpression n mode c)
  commandChain {mode target c} (hdepth : 16 * c.rest.length + 1 ≤ n) :
    Explained c (Parser.commandChain n mode target c)
  commandItems {mode c} (hdepth : 16 * c.rest.length + 5 ≤ n) :
    Explained c (Parser.commandItems n mode c)
  expression {mode c} (hdepth : 16 * c.rest.length + 4 ≤ n) :
    Explained c (Parser.expression n mode c)
  operators {mode left c} (hdepth : 16 * c.rest.length + 1 ≤ n) :
    Explained c (Parser.operators n mode left c)
  unary {mode c} (hdepth : 16 * c.rest.length + 3 ≤ n) :
    Explained c (Parser.unary n mode c)
  suffixes {mode operand c} (hdepth : 16 * c.rest.length + 2 ≤ n) :
    Explained c (Parser.suffixes n mode operand c)
  primary {mode c} (hdepth : 16 * c.rest.length + 2 ≤ n) :
    Explained c (Parser.primary n mode c)
  parenthesized {mode c} (hdepth : 16 * c.rest.length + 1 ≤ n) (hopening : c.isAt "(" = true) :
    Explained c (Parser.parenthesized n mode c)
  sequence {mode stops c} (hdepth : 16 * c.rest.length + 5 ≤ n) :
    Explained c (Parser.sequence n mode stops c)
  sequenceTail {mode stops c} (hdepth : 16 * c.rest.length + 5 ≤ n) :
    Explained c (Parser.sequenceTail n mode stops c)
  callParts {mode c} (hdepth : 16 * c.rest.length + 2 ≤ n) :
    Explained c (Parser.callParts n mode c)
  arguments {mode c} (hdepth : 16 * c.rest.length + 1 ≤ n) (hopening : c.isAt "(" = true) :
    Explained c (Parser.arguments n mode c)
  brackets {mode c} (hdepth : 16 * c.rest.length + 1 ≤ n) (hopening : c.isAt "[" = true) :
    Explained c (Parser.brackets n mode c)
  items {mode close c} (hdepth : 16 * c.rest.length + 6 ≤ n) :
    Explained c (Parser.items n mode close c)
  lambda {mode c} (hdepth : 16 * c.rest.length + 1 ≤ n) (hopening : c.isAt openBrace = true) :
    Explained c (Parser.lambda n mode c)
  annotated {mode c} (hdepth : 16 * c.rest.length + 1 ≤ n) (hmarker : c.isAt "@" = true) :
    Explained c (Parser.annotated n mode c)

namespace Safe

variable {n : Nat} {mode : Mode} {c c' : Cursor} {α β : Type}

/-! Behind a production, what is left is not longer, and shorter if the production consumes. -/

/-- A production that reads a piece, and a computation that goes on behind it. The faults of the
second show behind what the first has read, and so from where the first was started on. -/
theorem next_of_reads {x : Except Fault (α × Cursor)} {f : α × Cursor → Except Fault β}
    {task : Task} {piece : α → Piece} (hx : Explained c x)
    (hread : ∀ {a c'}, x = .ok (a, c') → Reads mode task c (piece a) c')
    (hf : ∀ a c', Reads mode task c (piece a) c' → Explained c' (f (a, c'))) :
    Explained c (x >>= f) := by
  refine .bind hx fun read hok => ?_
  obtain ⟨a, c₁⟩ := read
  exact .after (hread hok).passes (hf a c₁ (hread hok))

/-- The same where it is enough that no token came back. -/
theorem passes_next {x : Except Fault (α × Cursor)} {f : α × Cursor → Except Fault β}
    {task : Task} {piece : α → Piece} (hx : Explained c x)
    (hread : ∀ {a c'}, x = .ok (a, c') → Reads mode task c (piece a) c')
    (hf : ∀ a c', c'.rest.length ≤ c.rest.length → Explained c' (f (a, c'))) :
    Explained c (x >>= f) :=
  next_of_reads hx hread fun a c' hreads => hf a c' hreads.passes.length_le

/-- The same behind a production that consumes: the computation behind it has at least one token
less to read, and 16 more of depth. -/
theorem reads_next {x : Except Fault (α × Cursor)} {f : α × Cursor → Except Fault β}
    {task : Task} {piece : α → Piece} (hx : Explained c x)
    (hread : ∀ {a c'}, x = .ok (a, c') → Reads mode task c (piece a) c')
    (htask : task.consumes = true)
    (hf : ∀ a c', c'.rest.length < c.rest.length → Explained c' (f (a, c'))) :
    Explained c (x >>= f) :=
  next_of_reads hx hread fun a c' hreads => hf a c' (hreads.progress htask)

/-- A list of statements goes on behind a statement with one token less, so the depth is enough for
the next one. -/
theorem statements_succ (ih : Safe n) {inBlock : Bool}
    (hdepth : 16 * c.rest.length + 8 ≤ n + 1) :
    Explained c (Parser.statements (n + 1) mode inBlock c) := by
  rw [Parser.statements]
  split
  · exact .ok _
  · split
    · next hempty =>
        split
        · refine .fault ?_
          rw [Cursor.next, List.isEmpty_iff.1 hempty]
          rfl
        · exact .ok _
    · refine reads_next (ih.statement (by omega)) (sound n).statement rfl fun first c₁ hless => ?_
      refine .bind (ih.statements (by omega)) fun _ _ => ?_
      exact .ok _

theorem statement_succ (ih : Safe n) (hdepth : 16 * c.rest.length + 7 ≤ n + 1) :
    Explained c (Parser.statement (n + 1) mode c) := by
  rw [Parser.statement]
  split
  · exact .ok _
  · split
    · next hstarts =>
        rw [Cursor.atImport, Bool.and_eq_true] at hstarts
        refine .bind (.importing hstarts.1) fun _ _ => ?_
        exact .ok _
    · refine .bind (ih.statementExpr (by omega)) fun _ _ => ?_
      exact .ok _

theorem statementExpr_succ (ih : Safe n) {isBody : Bool}
    (hdepth : 16 * c.rest.length + 6 ≤ n + 1) :
    Explained c (Parser.statementExpr (n + 1) mode isBody c) := by
  rw [Parser.statementExpr]
  refine reads_next (ih.commandOrExpression (by omega)) (sound n).commandOrExpression rfl
    fun head c₁ hless => ?_
  refine .bind (ih.statementTail (by omega)) fun _ _ => ?_
  exact .ok _

/-- The tail of a statement goes on only where the statement does not end, and then reads an
expression. There it has rank 7, above all that it calls at the same place. -/
theorem statementTail_succ (ih : Safe n) {isBody : Bool} {head : Expr} {before : List Expr}
    (hdepth : 16 * c.rest.length + 7 ≤ n + 1) :
    Explained c (Parser.statementTail (n + 1) mode isBody head before c) := by
  rw [Parser.statementTail]
  split
  · exact .ok _
  · split
    · refine reads_next (ih.commandOrExpression (by omega)) (sound n).commandOrExpression rfl
        fun expr c₁ hless => ?_
      exact ih.statementTail (by omega)
    · split
      · refine reads_next (ih.statementExpr (by omega)) (sound n).statementExpr rfl
          fun body c₁ hless => ?_
        exact ih.statementTail (by omega)
      · exact .ok _

theorem commandOrExpression_succ (ih : Safe n) (hdepth : 16 * c.rest.length + 5 ≤ n + 1) :
    Explained c (Parser.commandOrExpression (n + 1) mode c) := by
  rw [Parser.commandOrExpression]
  split
  · exact ih.expression (by omega)
  · split
    · refine .name_next fun name c₁ hname => ?_
      refine reads_next (ih.commandItems (by omega)) (sound n).commandItems rfl
        fun items c₂ hitems => ?_
      exact ih.commandChain (by omega)
    · refine reads_next (ih.expression (by omega)) (sound n).expression rfl
        fun expr c₁ hexpr => ?_
      dsimp only
      split
      · split
        · refine reads_next (ih.commandItems (by omega)) (sound n).commandItems rfl
            fun items c₂ hitems => ?_
          exact ih.commandChain (by omega)
        · exact .ok _
      · exact ih.commandChain (by omega)
      · exact .ok _

theorem commandChain_succ (ih : Safe n) {target : Expr}
    (hdepth : 16 * c.rest.length + 1 ≤ n + 1) :
    Explained c (Parser.commandChain (n + 1) mode target c) := by
  rw [Parser.commandChain]
  split
  · refine .name_next fun name c₁ hname => ?_
    dsimp only
    split
    · refine passes_next (ih.callParts (by omega)) (sound n).callParts fun parts c₂ hparts => ?_
      exact ih.commandChain (by omega)
    · refine reads_next (ih.commandItems (by omega)) (sound n).commandItems rfl
        fun items c₂ hitems => ?_
      exact ih.commandChain (by omega)
  · exact .ok _

theorem commandItems_succ (ih : Safe n) (hdepth : 16 * c.rest.length + 5 ≤ n + 1) :
    Explained c (Parser.commandItems (n + 1) mode c) := by
  rw [Parser.commandItems]
  refine reads_next (ih.expression (by omega)) (sound n).expression rfl fun expr c₁ hexpr => ?_
  dsimp only
  split
  · exact .ok _
  · next comma c₂ hcomma =>
      have hless := (Cursor.Passes.of_optional hcomma).length_le
      refine .after (.of_optional hcomma) (.bind (ih.commandItems (by omega)) fun _ _ => ?_)
      exact .ok _

theorem expression_succ (ih : Safe n) (hdepth : 16 * c.rest.length + 4 ≤ n + 1) :
    Explained c (Parser.expression (n + 1) mode c) := by
  rw [Parser.expression]
  refine reads_next (ih.unary (by omega)) (sound n).unary rfl fun left c₁ hless => ?_
  exact ih.operators (by omega)

/-- An operator is read before its right side, so the loop calls itself with less in front of it and
needs the lowest rank. -/
theorem operators_succ (ih : Safe n) {left : Expr} (hdepth : 16 * c.rest.length + 1 ≤ n + 1) :
    Explained c (Parser.operators (n + 1) mode left c) := by
  rw [Parser.operators]
  split
  · exact .ok _
  · split
    · next op c₁ hop =>
        have hless := Cursor.length_lt_of_rest (Cursor.take?_some hop).1
        refine .after (.of_take? hop Token.known_of_isOneOf) ?_
        refine reads_next (ih.unary (by omega)) (sound n).unary rfl fun right c₂ hright => ?_
        exact ih.operators (by omega)
    · split
      · refine .name_next fun name c₁ hname => ?_
        refine reads_next (ih.unary (by omega)) (sound n).unary rfl fun right c₂ hright => ?_
        exact ih.operators (by omega)
      · exact .ok _

theorem unary_succ (ih : Safe n) (hdepth : 16 * c.rest.length + 3 ≤ n + 1) :
    Explained c (Parser.unary (n + 1) mode c) := by
  rw [Parser.unary]
  split
  · next op c₁ hop =>
      have hless := Cursor.length_lt_of_rest (Cursor.take?_some hop).1
      refine .after (.of_take? hop Token.known_of_isOneOf) ?_
      refine .bind (ih.unary (by omega)) fun _ _ => ?_
      exact .ok _
  · refine reads_next (ih.primary (by omega)) (sound n).primary rfl fun operand c₁ hless => ?_
    exact ih.suffixes (by omega)

/-- A dot must have a member behind it, and a bracket its closing bracket. These are the faults of a
suffix; without one the operand is answered as it is. -/
theorem suffixes_succ (ih : Safe n) {operand : Expr} (hdepth : 16 * c.rest.length + 2 ≤ n + 1) :
    Explained c (Parser.suffixes (n + 1) mode operand c) := by
  rw [Parser.suffixes]
  split
  · next dot c₁ hdot =>
      obtain ⟨hrest, hisDot, -⟩ := Cursor.take?_some hdot
      have hless := Cursor.length_lt_of_rest hrest
      -- The fault of a missing member quotes the dot, which is one of those tested for.
      obtain ⟨text, htext, his⟩ := List.any_eq_true.1 hisDot
      refine .after (.of_take? hdot Token.known_of_isOneOf) ?_
      refine .take_next (fun hnot => ⟨Token.mem_of_is his htext, hnot⟩) ?_ fun name c₂ hname => ?_
      · intro t ht hunknown
        rw [hunknown] at ht
        contradiction
      · refine passes_next (ih.callParts (by omega)) (sound n).callParts fun parts c₃ hparts => ?_
        dsimp only
        split
        · exact ih.suffixes (by omega)
        · exact ih.suffixes (by omega)
  · split
    · next hopening =>
        refine reads_next (ih.brackets (by omega) (Cursor.isAt_of_nextIs hopening))
          (sound n).brackets rfl fun brackets c₁ hless => ?_
        exact ih.suffixes (by omega)
    · split
      · next op c₁ hop =>
          obtain ⟨hrest, hisOp, -⟩ := Cursor.take?_some hop
          have hless := Cursor.length_lt_of_rest hrest
          rw [Bool.and_eq_true] at hisOp
          exact .after (.of_one hrest (Token.known_of_isOneOf hisOp.1)) (ih.suffixes (by omega))
      · exact .ok _

/-- A closing bracket, an unknown token and the end of the text are the faults of an operand.
Everything else starts one. -/
theorem primary_succ (ih : Safe n) (hdepth : 16 * c.rest.length + 2 ≤ n + 1) :
    Explained c (Parser.primary (n + 1) mode c) := by
  rw [Parser.primary]
  split
  · next hrest =>
      refine .fault ?_
      rw [Cursor.next, hrest]
      rfl
  next t rest hhere =>
  have hnext : ∀ p, c.nextIs p = p t := by
    intro p
    rw [Cursor.nextIs, Cursor.next, hhere]
    rfl
  have hless : rest.length < c.rest.length := by simp [hhere]
  dsimp only
  split
  · next hunknown =>
      refine .fault ?_
      show c.nextIs (·.kind == .unknown) = true
      rwa [hnext]
  split
  · next hname =>
      have hpassed : c.Passes ⟨some t, rest⟩ := .of_one hhere (Token.IsPlain.of_isName hname).1
      refine .after hpassed (.bind (ih.callParts (by simp only; omega)) fun read _ => ?_)
      obtain ⟨parts, c₁⟩ := read
      dsimp only
      split
      · exact .ok _
      · exact .ok _
  split
  · next hcloser =>
      refine .fault ?_
      show c.nextIs Token.isCloser = true
      rwa [hnext]
  -- From here on the productions start at the same place, in front of the token tested for.
  split
  · next hopening =>
      refine .bind (ih.lambda (by omega) (by rwa [Cursor.isAt, hnext])) fun _ _ => ?_
      exact .ok _
  split
  · next hopening => exact ih.parenthesized (by omega) (by rwa [Cursor.isAt, hnext])
  split
  · next hopening =>
      refine .bind (ih.brackets (by omega) (by rwa [Cursor.isAt, hnext])) fun _ _ => ?_
      exact .ok _
  split
  · next hmarker =>
      rw [Cursor.atAnnotated, Bool.and_eq_true, Bool.and_eq_true] at hmarker
      exact ih.annotated (by omega) hmarker.1.1
  · exact .ok _

/-- The opening bracket is there. The closing one may be missing, which is a fault that fits. -/
theorem parenthesized_succ (ih : Safe n) (hdepth : 16 * c.rest.length + 1 ≤ n + 1)
    (hopening : c.isAt "(" = true) : Explained c (Parser.parenthesized (n + 1) mode c) := by
  rw [Parser.parenthesized]
  refine .expect_next hopening fun opening c₁ hless => ?_
  dsimp only
  split
  · exact .ok _
  · refine reads_next (ih.sequence (by omega)) (sound n).sequence rfl fun inner c₂ _ => ?_
    refine .bind (.expect_closer (by decide)) fun _ _ => ?_
    exact .ok _

theorem sequence_succ (ih : Safe n) {stops : List String}
    (hdepth : 16 * c.rest.length + 5 ≤ n + 1) :
    Explained c (Parser.sequence (n + 1) mode stops c) := by
  rw [Parser.sequence]
  refine reads_next (ih.expression (by omega)) (sound n).expression rfl fun head c₁ hless => ?_
  refine .bind (ih.sequenceTail (by omega)) fun _ _ => ?_
  exact .ok _

theorem sequenceTail_succ (ih : Safe n) {stops : List String}
    (hdepth : 16 * c.rest.length + 5 ≤ n + 1) :
    Explained c (Parser.sequenceTail (n + 1) mode stops c) := by
  rw [Parser.sequenceTail]
  split
  · exact .ok _
  · refine reads_next (ih.expression (by omega)) (sound n).expression rfl fun first c₁ hless => ?_
    refine .bind (ih.sequenceTail (by omega)) fun _ _ => ?_
    exact .ok _

theorem callParts_succ (ih : Safe n) (hdepth : 16 * c.rest.length + 2 ≤ n + 1) :
    Explained c (Parser.callParts (n + 1) mode c) := by
  rw [Parser.callParts]
  rcases htypes : c.typeArgs? with ⟨types, c₁⟩
  have hpassed : c.Passes c₁ :=
    .of_plain (Cursor.typeArgs?_rest htypes) (Cursor.typeArgs?_plain htypes)
  have hless := hpassed.length_le
  refine .after hpassed (.optionally (fun hopening => ?_) fun part hargs => ?_)
  · exact ih.arguments (by omega) (Cursor.isAt_of_nextIs hopening)
  · obtain ⟨args, c₂⟩ := part
    have hread := ((sound n).argumentsIf hargs).passes
    have hshorter := hread.length_le
    refine .after hread (.optionally (fun hopening => ?_) fun _ _ => .ok _)
    exact ih.lambda (by omega) (Cursor.isAt_of_nextIs hopening)

theorem arguments_succ (ih : Safe n) (hdepth : 16 * c.rest.length + 1 ≤ n + 1)
    (hopening : c.isAt "(" = true) : Explained c (Parser.arguments (n + 1) mode c) := by
  rw [Parser.arguments]
  refine .expect_next hopening fun opening c₁ hless => ?_
  refine passes_next (ih.items (by omega)) (sound n).items fun items c₂ _ => ?_
  refine .bind (.expect_closer (by decide)) fun _ _ => ?_
  exact .ok _

theorem brackets_succ (ih : Safe n) (hdepth : 16 * c.rest.length + 1 ≤ n + 1)
    (hopening : c.isAt "[" = true) : Explained c (Parser.brackets (n + 1) mode c) := by
  rw [Parser.brackets]
  refine .expect_next hopening fun opening c₁ hless => ?_
  refine passes_next (ih.items (by omega)) (sound n).items fun items c₂ _ => ?_
  refine .bind (.expect_closer (by decide)) fun _ _ => ?_
  exact .ok _

theorem items_succ (ih : Safe n) {close : String} (hdepth : 16 * c.rest.length + 6 ≤ n + 1) :
    Explained c (Parser.items (n + 1) mode close c) := by
  rw [Parser.items]
  split
  · exact .ok _
  · refine reads_next (ih.sequence (by omega)) (sound n).sequence rfl fun expr c₁ hexpr => ?_
    dsimp only
    split
    · exact .ok _
    · next comma c₂ hcomma =>
        have hless := (Cursor.Passes.of_optional hcomma).length_le
        refine .after (.of_optional hcomma) (.bind (ih.items (by omega)) fun _ _ => ?_)
        exact .ok _

/-- A block that is not closed is a fault at the end of the text only: its statements are read up to
a closing brace or to the end. -/
theorem lambda_succ (ih : Safe n) (hdepth : 16 * c.rest.length + 1 ≤ n + 1)
    (hopening : c.isAt openBrace = true) : Explained c (Parser.lambda (n + 1) mode c) := by
  rw [Parser.lambda]
  refine .expect_next hopening fun opening c₁ hless => ?_
  -- Parameters are read up to the arrow or not at all, and either way nothing is a fault.
  rcases hparams : c₁.lambdaParams? with ⟨params, c₂⟩
  have hpassed := Cursor.lambdaParams?_passes hparams
  have hshorter := hpassed.length_le
  simp only [hparams]
  refine .after hpassed ?_
  refine passes_next (ih.statements (by omega)) (sound n).statements fun body c₃ _ => ?_
  refine .bind (.expect_closer (by decide)) fun _ _ => ?_
  exact .ok _

/-- An annotation must have a name, and it stops where the annotated expression does. -/
theorem annotated_succ (ih : Safe n) (hdepth : 16 * c.rest.length + 1 ≤ n + 1)
    (hmarker : c.isAt "@" = true) : Explained c (Parser.annotated (n + 1) mode c) := by
  rw [Parser.annotated]
  refine .expect_next hmarker fun marker c₁ hless => ?_
  refine .name_next fun first c₂ hname => ?_
  rcases hmore : Cursor.annotationPath c₂.rest.length c₂ with ⟨more, c₃⟩
  have hpassed : c₂.Passes c₃ :=
    .of_plain (Cursor.annotationPath_rest hmore) (Cursor.annotationPath_plain hmore)
  have hpath := hpassed.length_le
  simp only [hmore]
  refine .after hpassed (.optionally (fun hopening => ?_) fun part hargs => ?_)
  · exact ih.arguments (by omega) (Cursor.isAt_of_nextIs hopening)
  · obtain ⟨args, c₄⟩ := part
    have hread := ((sound n).argumentsIf hargs).passes
    have hshorter := hread.length_le
    exact .after hread (.optionally (fun _ => ih.expression (by omega)) fun _ _ => .ok _)

end Safe

/-- At every depth the productions stop only at explained faults. At depth zero no production has
enough, as each needs at least one; from there on the lemmas above make one step for each
production. -/
theorem safe (n : Nat) : Safe n := by
  induction n with
  -- No production is asked to do with depth zero, since each rank is at least one.
  | zero => constructor <;> intros <;> omega
  | succ n ih =>
      exact {
        statements := ih.statements_succ
        statement := ih.statement_succ
        statementExpr := ih.statementExpr_succ
        statementTail := ih.statementTail_succ
        commandOrExpression := ih.commandOrExpression_succ
        commandChain := ih.commandChain_succ
        commandItems := ih.commandItems_succ
        expression := ih.expression_succ
        operators := ih.operators_succ
        unary := ih.unary_succ
        suffixes := ih.suffixes_succ
        primary := ih.primary_succ
        parenthesized := ih.parenthesized_succ
        sequence := ih.sequence_succ
        sequenceTail := ih.sequenceTail_succ
        callParts := ih.callParts_succ
        arguments := ih.arguments_succ
        brackets := ih.brackets_succ
        items := ih.items_succ
        lambda := ih.lambda_succ
        annotated := ih.annotated_succ }

/-- At depth `n`, the productions of statements, expressions, arguments and lambdas read at least
one token whenever they succeed. -/
structure Progress (n : Nat) : Prop where
  statement {mode c out c'} (h : Parser.statement n mode c = .ok (out, c')) :
    c'.rest.length < c.rest.length
  statementExpr {mode isBody c out c'} (h : Parser.statementExpr n mode isBody c = .ok (out, c')) :
    c'.rest.length < c.rest.length
  commandOrExpression {mode c out c'} (h : Parser.commandOrExpression n mode c = .ok (out, c')) :
    c'.rest.length < c.rest.length
  commandItems {mode c out c'} (h : Parser.commandItems n mode c = .ok (out, c')) :
    c'.rest.length < c.rest.length
  expression {mode c out c'} (h : Parser.expression n mode c = .ok (out, c')) :
    c'.rest.length < c.rest.length
  unary {mode c out c'} (h : Parser.unary n mode c = .ok (out, c')) :
    c'.rest.length < c.rest.length
  primary {mode c out c'} (h : Parser.primary n mode c = .ok (out, c')) :
    c'.rest.length < c.rest.length
  parenthesized {mode c out c'} (h : Parser.parenthesized n mode c = .ok (out, c')) :
    c'.rest.length < c.rest.length
  sequence {mode stops c out c'} (h : Parser.sequence n mode stops c = .ok (out, c')) :
    c'.rest.length < c.rest.length
  arguments {mode c out c'} (h : Parser.arguments n mode c = .ok (out, c')) :
    c'.rest.length < c.rest.length
  brackets {mode c out c'} (h : Parser.brackets n mode c = .ok (out, c')) :
    c'.rest.length < c.rest.length
  lambda {mode c out c'} (h : Parser.lambda n mode c = .ok (out, c')) :
    c'.rest.length < c.rest.length
  annotated {mode c out c'} (h : Parser.annotated n mode c = .ok (out, c')) :
    c'.rest.length < c.rest.length

theorem progress (n : Nat) : Progress n where
  statement h := ((sound n).statement h).progress rfl
  statementExpr h := ((sound n).statementExpr h).progress rfl
  commandOrExpression h := ((sound n).commandOrExpression h).progress rfl
  commandItems h := ((sound n).commandItems h).progress rfl
  expression h := ((sound n).expression h).progress rfl
  unary h := ((sound n).unary h).progress rfl
  primary h := ((sound n).primary h).progress rfl
  parenthesized h := ((sound n).parenthesized h).progress rfl
  sequence h := ((sound n).sequence h).progress rfl
  arguments h := ((sound n).arguments h).progress rfl
  brackets h := ((sound n).brackets h).progress rfl
  lambda h := ((sound n).lambda h).progress rfl
  annotated h := ((sound n).annotated h).progress rfl

end Parser

/-! ### Looking ahead

Looking ahead counts tokens, and then so many are taken at once. That there are so many is what
the look-ahead has found out; it is checked here with a counter that says so when it would go
below zero. -/

/-- As `typeArgsLength`, with a counter that has no value below zero: there is no answer if a
bracket is closed that is not open. -/
def checkedTypeArgsLength (depth : Nat) : List Token → Option (Option Nat)
  | [] => some none
  | t :: rest =>
    if t.startsLine then some none
    else if t.is "<" then (checkedTypeArgsLength (depth + 1) rest).map (Option.map (· + 1))
    else if t.is ">" then
      match depth with
      | 0 => none
      | 1 =>
        some <|
          if rest.head?.any fun t => (t.is "(" || t.is openBrace) && !t.startsLine then some 0
          else none
      | depth + 2 => (checkedTypeArgsLength (depth + 1) rest).map (Option.map (· + 1))
    else if t.inTypeArgs then (checkedTypeArgsLength depth rest).map (Option.map (· + 1))
    else some none

/-- Inside an open bracket the counter of the scan stays above zero up to its last step. So the
subtraction never goes below it, and the checked scan answers what the scan answers. -/
theorem checkedTypeArgsLength_eq {depth : Nat} (hopen : 0 < depth) (tokens : List Token) :
    checkedTypeArgsLength depth tokens = some (typeArgsLength depth tokens) := by
  induction tokens generalizing depth with
  | nil => rfl
  | cons t rest ih =>
      unfold checkedTypeArgsLength typeArgsLength
      split
      · rfl
      split
      · rw [ih (Nat.succ_pos depth)]
        rfl
      split
      · obtain _ | _ | depth := depth
        · contradiction
        · rfl
        · simp only
          rw [ih (Nat.succ_pos depth)]
          rfl
      split
      · rw [ih hopen]
        rfl
      · rfl

/-- Where the scan ends, a closing angle bracket stands. -/
theorem closes_of_typeArgsLength {tokens : List Token} {depth count : Nat}
    (h : typeArgsLength depth tokens = some count) :
    (tokens.drop count).head?.any (·.is ">") = true := by
  fun_induction typeArgsLength depth tokens generalizing count with
  | case3 _ _ _ _ _ ih | case8 _ _ _ _ _ _ _ ih | case9 _ _ _ _ _ _ _ ih =>
      obtain ⟨inner, hinner, rfl⟩ := Option.map_eq_some_iff.1 h
      exact ih hinner
  | case4 _ _ _ _ hangle | case6 _ _ _ _ hangle =>
      cases h
      exact hangle
  | case1 | case2 | case5 | case7 | case10 => cases h

/-- Where the scan for an arrow ends, an arrow stands. -/
theorem closes_of_arrowAfter {tokens : List Token} {count : Nat}
    (h : arrowAfter tokens = some count) : (tokens.drop count).head?.any (·.is "->") = true := by
  fun_induction arrowAfter tokens generalizing count with
  | case1 | case3 => cases h
  | case2 _ _ harrow =>
      cases h
      exact harrow
  | case4 _ _ _ _ ih =>
      obtain ⟨inner, hinner, rfl⟩ := Option.map_eq_some_iff.1 h
      exact ih hinner

namespace Cursor

variable {c : Cursor}

/-- What is read after looking ahead, without another test, is there to be read. These are the
places where the parser takes tokens on trust. -/
structure InRange (c : Cursor) : Prop where
  /-- The type arguments up to the bracket that the scan found. -/
  typeArgs {count} (h : c.typeArgsClose = some count) : ∃ read, c.typeArgs count = some read
  /-- The parameters of a lambda up to the arrow that the scan found. -/
  lambdaParams {count} (h : c.lambdaArrow = some count) : ∃ read, c.lambdaParams count = some read
  /-- The mark and the name that carry an import path or the name of an annotation on. -/
  segment {p q} (hfirst : c.nextIs p = true) (hsecond : c.secondIs q = true) :
    (c.takeMany 2).1.length = 2
  /-- The name of a command, of the next call in a chain, or of an infixed call. -/
  name {mode left}
    (h : c.atCommand = true ∨ c.atChainLink = true ∨ c.atInfixedCall mode left = true) :
    ∃ read, c.name = .ok read

/-- A token that passes the test is there to be read. -/
theorem take?_of_nextIs {p : Token → Bool} (h : c.nextIs p = true) :
    ∃ read, c.take? p = some read := by
  cases hread : c.take? p with
  | some read => exact ⟨read, rfl⟩
  | none =>
      rw [take?_none hread] at h
      contradiction

/-- Behind `count` tokens stands what is found in the list behind as many. -/
theorem nextIs_takeMany (c : Cursor) {count : Nat} {p : Token → Bool} :
    (c.takeMany count).2.nextIs p = (c.rest.drop count).head?.any p := by
  rw [nextIs, next, takeMany_drop rfl]

/-- If looking ahead has found the end of type arguments, they can be read without another test. -/
theorem typeArgs_of_close {count : Nat} (h : c.typeArgsClose = some count) :
    ∃ read, c.typeArgs count = some read := by
  unfold typeArgsClose at h
  split at h
  · next t rest hrest =>
      split at h
      · next hopening =>
          rw [Bool.and_eq_true] at hopening
          have hread : c.take? (·.is "<") = some (t, ⟨some t, rest⟩) := by
            simp [take?, hrest, hopening.1]
          have hclose := closes_of_typeArgsLength h
          rw [← nextIs_takeMany ⟨some t, rest⟩] at hclose
          obtain ⟨⟨closing, c'⟩, hclosing⟩ := take?_of_nextIs hclose
          simp only [typeArgs, hread, hclosing, Option.bind_eq_bind, Option.bind_some]
          exact ⟨_, rfl⟩
      · cases h
  · cases h

/-- If looking ahead has found an arrow, the parameters in front of it can be read without another
test. -/
theorem lambdaParams_of_arrow {count : Nat} (h : c.lambdaArrow = some count) :
    ∃ read, c.lambdaParams count = some read := by
  have hclose : (c.rest.drop count).head?.any (·.is "->") = true := by
    unfold lambdaArrow at h
    split at h
    · cases h
    · next t rest hrest =>
        rw [hrest]
        split at h
        · next harrow =>
            cases h
            exact harrow
        · split at h
          · obtain ⟨inner, hinner, rfl⟩ := Option.map_eq_some_iff.1 h
            rw [List.drop_succ_cons]
            exact closes_of_arrowAfter hinner
          · cases h
  rw [← nextIs_takeMany c] at hclose
  obtain ⟨⟨arrow, c'⟩, harrow⟩ := take?_of_nextIs hclose
  simp only [lambdaParams, harrow, Option.bind_eq_bind, Option.bind_some]
  exact ⟨_, rfl⟩

theorem length_takeMany_two {p q : Token → Bool} (hfirst : c.nextIs p = true)
    (hsecond : c.secondIs q = true) : (c.takeMany 2).1.length = 2 := by
  rw [takeMany_take rfl]
  obtain ⟨last, _ | ⟨first, _ | ⟨second, rest⟩⟩⟩ := c
  · cases hfirst
  · cases hsecond
  · rfl

/-- Where a test for certain names has passed, a name is read. -/
theorem name_of_nextIs {p : Token → Bool} (h : c.nextIs p = true)
    (hp : ∀ t, p t = true → t.isName = true) : ∃ read, c.name = .ok read := by
  obtain ⟨t, hnext, ht⟩ := (Option.any_eq_true _ _).1 h
  have hname := hp t ht
  rw [Token.isName, Bool.and_eq_true] at hname
  obtain ⟨read, hread⟩ := take?_of_nextIs ((Option.any_eq_true _ _).2 ⟨t, hnext, hname.1⟩)
  rw [name, take, hread]
  exact ⟨read, rfl⟩

theorem inRange (c : Cursor) : c.InRange where
  typeArgs := typeArgs_of_close
  lambdaParams := lambdaParams_of_arrow
  segment := length_takeMany_two
  name h := by
    rcases h with hcommand | hlink | hinfixed
    · rw [atCommand, Bool.and_eq_true] at hcommand
      exact name_of_nextIs hcommand.1 fun _ => id
    · rw [atChainLink, Bool.and_eq_true] at hlink
      exact name_of_nextIs hlink.1 fun _ ht => (Bool.and_eq_true_iff.1 ht).1
    · simp only [atInfixedCall, Bool.and_eq_true] at hinfixed
      exact name_of_nextIs hinfixed.1.2 fun _ ht => (Bool.and_eq_true_iff.1 ht).1

end Cursor

/-! ### Scripts -/

/-- A text that is no script has its error in front of one of its tokens, or at its end. The depth
that `parse` starts with is 16 for each token and 16 more, and a list of statements has rank 8. -/
theorem explains_of_parse {source : String} {dialect : Dialect} {error : ParseError}
    (h : parse source dialect = .error error) :
    error.source = source ∧ Cursor.Explains ⟨none, (lex source).tokens⟩ error.toFault := by
  unfold parse at h
  dsimp only at h
  split at h
  · cases h
  · next fault hfault =>
      cases h
      refine ⟨rfl, (Parser.safe _).statements ?_ fault hfault⟩
      rw [Parser.depthFor]
      simp only
      omega

/-- Parsing is safe. Its result is a script or an error that carries the text and points to a token
of the text, or to its end where the text ended too early; each problem shows only in front of what
it is about, and never because the depth was too small or because a token that was tested for is not
there. What is read after looking ahead is in range, the counter of open brackets does not fall
below zero, and the productions that loops repeat read at least one token. -/
theorem parse_safe (source : String) (dialect : Dialect) :
    ((∃ script, parse source dialect = .ok script) ∨
      ∃ error, parse source dialect = .error error ∧ error.source = source ∧
        error.problem.Fits error.found ∧
        ((∃ t ∈ (lex source).tokens, error.found = some t ∧ error.span = t.span) ∨
          error.found = none ∧ error.span = ⟨source.utf8ByteSize, source.utf8ByteSize⟩)) ∧
      (∀ c : Cursor, c.InRange) ∧
      (∀ tokens, checkedTypeArgsLength 1 tokens = some (typeArgsLength 1 tokens)) ∧
      ∀ n, Parser.Progress n := by
  refine ⟨?_, Cursor.inRange, checkedTypeArgsLength_eq Nat.one_pos, Parser.progress⟩
  cases h : parse source dialect with
  | ok script => exact .inl ⟨script, rfl⟩
  | error error =>
      obtain ⟨hsource, left, hleft, hfound, hfits⟩ := explains_of_parse h
      refine .inr ⟨error, rfl, hsource, hfits, ?_⟩
      cases left with
      | nil =>
          refine .inr ⟨hfound, ?_⟩
          rw [ParseError.span, hfound, hsource]
          rfl
      | cons t more =>
          refine .inl ⟨t, hleft.subset (List.mem_cons_self ..), hfound, ?_⟩
          rw [ParseError.span, hfound]
          rfl

end BuildPrune
