import BuildPrune.Proofs.WrittenTokens

/-!
# BuildPrune.Proofs.ControlPrograms

Programs of brace-less branches, their texts and their nestings. A `Control` program is built from
calls `f()`, `if (c)` with a body on the next line, and `else` on a line of its own with its body on
the next.

* `Control.nesting`: each `if` has its body and its own `else`, as the program is written.
* `Control.greedyNesting`: a body that opens with `if` takes every `else` behind it, also when it
  has its own already, and a body that is a call takes none. It is found from the chains of headers
  that stand between the `else`s (`Control.first`, `Control.more`).

The two are the same exactly if a call stands in front of each `else` (`greedyNesting_eq_iff`). The
tokens of a program are those of its text (`lexemes_text`).
-/

namespace BuildPrune

/-! ### Programs

A program is what somebody writes who has each `else` on a line of its own. It determines the
nesting that is meant, as it has one constructor for an `if` with an `else` and one for an `if`
without. -/

/-- A program of calls and brace-less branches. Each `if` and each `else` has one body, which is
such a program again. -/
inductive Control
  | call (name : String)
  | ifThen (condition : String) (body : Control)
  | ifElse (condition : String) (body otherwise : Control)

namespace Control

/-- The text of a program. -/
def text : Control → String
  | call name => name ++ "()"
  | ifThen condition body => "if (" ++ condition ++ ")\n" ++ body.text
  | ifElse condition body otherwise =>
    "if (" ++ condition ++ ")\n" ++ body.text ++ "\nelse\n" ++ otherwise.text

/-- The conditions and the functions are names, so that the text of the program is read back word by
word. -/
def Named : Control → Prop
  | call name => IsName name
  | ifThen condition body => IsName condition ∧ body.Named
  | ifElse condition body otherwise => IsName condition ∧ body.Named ∧ otherwise.Named

/-- The program ends in an `if` without `else`: an `else` behind it would be its own. -/
def endsOpen : Control → Bool
  | call _ => false
  | ifThen _ _ => true
  | ifElse _ _ otherwise => otherwise.endsOpen

/-- No `else` has a choice: none follows a body that ends in an `if` without one. -/
def Unambiguous : Control → Prop
  | call _ => True
  | ifThen _ body => body.Unambiguous
  | ifElse _ body otherwise => body.endsOpen = false ∧ body.Unambiguous ∧ otherwise.Unambiguous

/-- In front of each `else` stands a call. Then the body that ends there is that call, and the
`else` goes to the `if` right in front of it. -/
def ElsesFollowCalls : Control → Prop
  | call _ => True
  | ifThen _ body => body.ElsesFollowCalls
  | ifElse _ (call _) otherwise => otherwise.ElsesFollowCalls
  | ifElse _ _ _ => False

end Control

/-! ### Nesting -/

/-- How branches are nested in an expression: a call, or a condition with a body and the bodies of
the `else`s behind it. -/
inductive Nesting
  | call (name : String)
  | branch (condition : String) (body : Nesting) (elses : List Nesting)

mutual

/-- The nesting of a call, or of a sequence that holds `if`, its condition, its body, and each
`else` in front of its own. -/
def Expr.nesting? : Expr → Option Nesting
  | .call ⟨none, name, none, some ⟨some _, [], some _⟩, none, .regular⟩ => some (.call name.text)
  | .sequence (.atom keyword) (.paren _ (.atom condition) _ :: body :: elses) =>
    if keyword.is "if" then do
      return .branch condition.text (← body.nesting?) (← Expr.elses? elses)
    else none
  | _ => none

/-- The nestings of the bodies in a list of `else`s, each in front of its body. -/
def Expr.elses? : List Expr → Option (List Nesting)
  | [] => some []
  | .atom keyword :: body :: more =>
    if keyword.is "else" then do
      return (← body.nesting?) :: (← Expr.elses? more)
    else none
  | _ => none

end

namespace Control

/-- The nesting that the program is written with: each `if` has its body and, if it has one, its own
`else`. -/
def nesting : Control → Nesting
  | call name => .call name
  | ifThen condition body => .branch condition body.nesting []
  | ifElse condition body otherwise => .branch condition body.nesting [otherwise.nesting]

end Control

/-! ### Chains

To say how a program is read it is taken apart at its `else`s. Between two of them there is a
chain of headers and then a call, and what the parser does with an `else` depends on the chain
behind it only. -/

/-- A run of headers with nothing between them, and the call behind the last. -/
structure Chain where
  conditions : List String
  call : String

namespace Chain

/-- The tokens of a chain. -/
def tokensOf (leading : String) : List String → String → List Token
  | [], name => [.word leading name, .mark "" "(", .mark "" ")"]
  | condition :: conditions, name =>
    .word leading "if" :: .mark " " "(" :: .word "" condition :: .mark "" ")" ::
      tokensOf "\n" conditions name

def tokens (leading : String) (chain : Chain) : List Token :=
  tokensOf leading chain.conditions chain.call

/-- The tokens of chains that each stand behind an `else`. -/
def elseTokens : List Chain → List Token
  | [] => []
  | chain :: more => .word "\n" "else" :: (chain.tokens "\n" ++ elseTokens more)

/-- The nesting of a chain whose last `if` has these `else`s. The headers in front of it have the
next one for a body, and no `else`. -/
def nestingOf (elses : List Nesting) : List String → String → Nesting
  | [], name => .call name
  | [condition], name => .branch condition (.call name) elses
  | condition :: next :: conditions, name =>
    .branch condition (nestingOf elses (next :: conditions) name) []

/-- The bodies of the `else`s that one `if` takes: a call leaves the next `else` to it, a chain with
a header of its own takes all that is left. -/
def nestings : List Chain → List Nesting
  | [] => []
  | ⟨[], name⟩ :: more => .call name :: nestings more
  | ⟨condition :: conditions, name⟩ :: more =>
    [nestingOf (nestings more) (condition :: conditions) name]

/-- The conditions and the function are names. -/
def Named (chain : Chain) : Prop :=
  (∀ condition ∈ chain.conditions, IsName condition) ∧ IsName chain.call

end Chain

namespace Control

/-- The headers and the call that the program opens with. An `else` comes behind the first call at
the earliest, so up to there a program is a chain. -/
def first : Control → Chain
  | call name => ⟨[], name⟩
  | ifThen condition body => ⟨condition :: body.first.conditions, body.first.call⟩
  | ifElse condition body _ => ⟨condition :: body.first.conditions, body.first.call⟩

/-- The chains behind the `else`s of the program, in the order of the text. -/
def more : Control → List Chain
  | call _ => []
  | ifThen _ body => body.more
  | ifElse _ body otherwise => body.more ++ otherwise.first :: otherwise.more

/-- The tokens of the program. -/
def tokens (leading : String) (program : Control) : List Token :=
  program.first.tokens leading ++ Chain.elseTokens program.more

/-- The nesting in which each body that opens with `if` takes every `else` behind it. -/
def greedyNesting (program : Control) : Nesting :=
  Chain.nestingOf (Chain.nestings program.more) program.first.conditions program.first.call

end Control

/-! ### Two nestings

They are compared by induction on the program. Where an `if` is the body of an `if` with an
`else`, the inner one takes what was meant for the outer one. -/

namespace Chain

/-- What a chain leaves of the `else`s behind it: a call all of them, an `if` none. -/
def left (more : List Chain) : List String → List Chain
  | [] => more
  | _ :: _ => []

/-- The first chain has the nesting that it is left with, and the others are the ones it leaves. -/
theorem nestings_cons (chain : Chain) (more : List Chain) :
    nestings (chain :: more) =
      nestingOf (nestings more) chain.conditions chain.call ::
        nestings (left more chain.conditions) := by
  obtain ⟨conditions, call⟩ := chain
  cases conditions <;> rfl

theorem nestingOf_cons (more : List Chain) (condition : String) (conditions : List String)
    (name : String) :
    nestingOf (nestings more) (condition :: conditions) name =
      .branch condition (nestingOf (nestings more) conditions name)
        (nestings (left more conditions)) := by
  cases conditions <;> rfl

end Chain

namespace Control

theorem left_more (program : Control) :
    Chain.left program.more program.first.conditions = [] := by
  cases program <;> rfl

/-- The chains of a program make one nesting, so every `else` finds an `if`. -/
theorem nestings_chains (program : Control) :
    Chain.nestings (program.first :: program.more) = [program.greedyNesting] := by
  rw [Chain.nestings_cons, left_more]
  rfl

theorem greedyNesting_ifThen (condition : String) (body : Control) :
    (ifThen condition body).greedyNesting = .branch condition body.greedyNesting [] := by
  rw [greedyNesting, first, more, Chain.nestingOf_cons, left_more]
  rfl

/-- Behind a call, an `if` takes its own `else`, and the nesting is the one that was written. -/
theorem greedyNesting_ifElse_call (condition name : String) (otherwise : Control) :
    (ifElse condition (call name) otherwise).greedyNesting =
      .branch condition (.call name) [otherwise.greedyNesting] := by
  rw [greedyNesting, first, more, Chain.nestingOf_cons, ← nestings_chains]
  rfl

/-- Behind a body that opens with `if`, nothing is left for the `if` in front: the body takes every
`else`. -/
theorem greedyNesting_ifElse (condition : String) {next : String} {conditions : List String}
    (body otherwise : Control) (h : body.first.conditions = next :: conditions) :
    ∃ nesting, (ifElse condition body otherwise).greedyNesting = .branch condition nesting [] := by
  rw [greedyNesting, first, more, Chain.nestingOf_cons, h]
  exact ⟨_, rfl⟩

/-- The programs that are read as they are written are those in which a call stands in front of each
`else`. The induction is on the program; for `if` with `else`, the shape of the body decides. -/
theorem greedyNesting_eq_iff {program : Control} :
    program.greedyNesting = program.nesting ↔ program.ElsesFollowCalls := by
  induction program with
  | call name => exact iff_of_true rfl trivial
  | ifThen condition body ih => simp [greedyNesting_ifThen, nesting, ElsesFollowCalls, ih]
  | ifElse condition body otherwise _ ih =>
      cases body with
      | call name => simp [greedyNesting_ifElse_call, nesting, ElsesFollowCalls, ih]
      | ifThen next inner =>
          obtain ⟨taken, htaken⟩ := greedyNesting_ifElse condition (ifThen next inner) otherwise rfl
          simp [htaken, nesting, ElsesFollowCalls]
      | ifElse next inner other =>
          obtain ⟨taken, htaken⟩ :=
            greedyNesting_ifElse condition (ifElse next inner other) otherwise rfl
          simp [htaken, nesting, ElsesFollowCalls]

/-! ### The text of a program

Each header and each `else` starts a line, and names, parentheses and line breaks are read back as
they are written. So the tokens of the text are those of the chains, up to their places. -/

theorem elseTokens_append (chains more : List Chain) :
    Chain.elseTokens (chains ++ more) = Chain.elseTokens chains ++ Chain.elseTokens more := by
  induction chains with
  | nil => rfl
  | cons chain chains ih => simp [Chain.elseTokens, ih]

/-- The tokens of a program spell its text, whatever trivia is in front of the first. -/
theorem printTokens_tokens (program : Control) (leading : String) :
    printTokens (program.tokens leading) = leading ++ program.text := by
  apply String.toList_inj.1
  induction program generalizing leading with
  | call name =>
      simp [tokens, first, more, Chain.tokens, Chain.tokensOf, Chain.elseTokens, text, Token.print,
        Token.word, Token.mark]
  | ifThen condition body ih =>
      have hbody := ih "\n"
      simp only [tokens, Chain.tokens, printTokens_append, String.toList_append] at hbody
      simp [tokens, first, more, Chain.tokens, Chain.tokensOf, text, Token.print, Token.word,
        Token.mark, hbody]
  | ifElse condition body otherwise ihbody ihotherwise =>
      have hbody := ihbody "\n"
      have hotherwise := ihotherwise "\n"
      simp only [tokens, Chain.tokens, printTokens_append, String.toList_append] at hbody hotherwise
      -- More follows the tokens of the body.
      have hmore : ∀ rest, (printTokens (Chain.tokensOf "\n" body.first.conditions
          body.first.call)).toList ++ ((printTokens (Chain.elseTokens body.more)).toList ++ rest) =
            "\n".toList ++ body.text.toList ++ rest := by
        intro rest
        rw [← List.append_assoc, hbody]
      simp [tokens, first, more, Chain.tokens, Chain.tokensOf, Chain.elseTokens, text, Token.print,
        elseTokens_append, Token.word, Token.mark, hotherwise, hmore]

/-- The chains of a program are made of its names. -/
theorem named_chains {program : Control} (h : program.Named) :
    program.first.Named ∧ ∀ chain ∈ program.more, chain.Named := by
  induction program with
  | call name => exact ⟨⟨by simp [first], h⟩, by simp [more]⟩
  | ifThen condition body ih =>
      obtain ⟨hcondition, hbody⟩ := h
      obtain ⟨⟨hconditions, hcall⟩, hmore⟩ := ih hbody
      exact ⟨⟨List.forall_mem_cons.2 ⟨hcondition, hconditions⟩, hcall⟩, hmore⟩
  | ifElse condition body otherwise ihbody ihotherwise =>
      obtain ⟨hcondition, hbody, hotherwise⟩ := h
      obtain ⟨⟨hconditions, hcall⟩, hmore⟩ := ihbody hbody
      refine ⟨⟨List.forall_mem_cons.2 ⟨hcondition, hconditions⟩, hcall⟩, ?_⟩
      exact List.forall_mem_append.2 ⟨hmore, List.forall_mem_cons.2 (ihotherwise hotherwise)⟩

end Control

namespace Chain

theorem stand_tokensOf {conditions : List String} {name : String}
    (hconditions : ∀ condition ∈ conditions, IsName condition) (hname : IsName name)
    (leading : String) {more : List Token} {rest : List Char} (hmore : Stand more rest) :
    Stand (tokensOf leading conditions name ++ more) rest := by
  induction conditions generalizing leading with
  | nil =>
      refine stand_word hname.1 ?_ (stand_mark (by decide) (stand_mark (by decide) hmore))
      simp [EndsIdentifier, Token.mark]
      decide
  | cons condition conditions ih =>
      obtain ⟨hcondition, hconditions⟩ := List.forall_mem_cons.1 hconditions
      refine stand_word (by decide +kernel) ?_ (stand_mark (by decide) (stand_word hcondition.1 ?_
        (stand_mark (by decide) (ih hconditions "\n"))))
      · simp [EndsIdentifier, Token.mark]
        decide
      · simp [EndsIdentifier, Token.mark]
        decide

/-- Between the tokens of a chain stand blanks and single line breaks, so all of it is trivia that
the lexer skips. -/
theorem leading_tokensOf (leading : String) (conditions : List String) (name : String) :
    ∀ t ∈ tokensOf leading conditions name, t.leading ∈ [leading, "", " ", "\n"] := by
  induction conditions generalizing leading with
  | nil => simp [tokensOf, Token.word, Token.mark]
  | cons condition conditions ih =>
      have hbody := ih "\n"
      simp only [tokensOf, List.forall_mem_cons]
      refine ⟨by simp [Token.word], by simp [Token.mark], by simp [Token.word],
        by simp [Token.mark], fun t ht => ?_⟩
      have hlead := hbody t ht
      simp only [List.mem_cons] at hlead ⊢
      tauto

theorem leading_elseTokens {chains : List Chain} :
    ∀ t ∈ elseTokens chains, t.leading ∈ ["", " ", "\n"] := by
  induction chains with
  | nil => simp [elseTokens]
  | cons chain more ih =>
      intro t ht
      rw [elseTokens, List.mem_cons, List.mem_append] at ht
      rcases ht with rfl | ht | ht
      · simp [Token.word]
      · have hlead := leading_tokensOf _ _ _ t ht
        simp only [List.mem_cons] at hlead ⊢
        tauto
      · exact ih t ht

theorem stand_elseTokens {chains : List Chain} (h : ∀ chain ∈ chains, chain.Named) :
    Stand (elseTokens chains) [] := by
  induction chains with
  | nil => trivial
  | cons chain more ih =>
      obtain ⟨hchain, hmore⟩ := List.forall_mem_cons.1 h
      refine stand_word (by decide +kernel) ?_ (stand_tokensOf hchain.1 hchain.2 "\n" (ih hmore))
      rw [tokens]
      cases chain.conditions <;> simp [EndsIdentifier, tokensOf, Token.word] <;> decide

end Chain

namespace Control

/-- A program opens with `if` or with the name of a function. In either case a statement is read
there, and no import. -/
theorem exists_opening {program : Control} (h : program.Named) :
    ∃ text more, program.tokens "" = .word "" text :: more ∧ IsIdentifier text ∧
      text ∉ [";", "import"] := by
  obtain ⟨⟨-, hcall⟩, -⟩ := named_chains h
  rw [tokens, Chain.tokens]
  cases program.first.conditions with
  | nil => exact ⟨_, _, rfl, hcall.1, hcall.not_mem (by decide)⟩
  | cons => exact ⟨"if", _, rfl, by decide +kernel, by decide⟩

/-- The tokens of a program are the tokens of its text. Each is read up to the trivia in front of
the next, since a name goes on over no blank and no bracket. -/
theorem lexemes_text {program : Control} (h : program.Named) :
    (lex program.text).tokens.map Token.lexeme = (program.tokens "").map Token.lexeme ∧
      (lex program.text).eof = "" := by
  obtain ⟨⟨hconditions, hcall⟩, hmore⟩ := named_chains h
  have htext : printTokens (program.tokens "") ++ "" = program.text := by
    rw [String.append_empty, printTokens_tokens, String.empty_append]
  rw [← htext]
  refine lex_written ?_ ?_ ?_
  · exact Chain.stand_tokensOf hconditions hcall "" (Chain.stand_elseTokens hmore)
  · refine tokensEdged_iff.2 ⟨?_, by decide⟩
    intro t ht
    have htidy : ∀ leading ∈ ["", " ", "\n"], (tidyEdge .between).lead leading := by decide
    refine htidy _ ((List.mem_append.1 ht).elim (fun ht => ?_) (Chain.leading_elseTokens t))
    simpa using Chain.leading_tokensOf _ _ _ t ht
  · obtain ⟨text, more, htokens, hidentifier, -⟩ := exists_opening h
    obtain ⟨c, rest, hcons, -⟩ := hidentifier.cases
    have hne := hidentifier.head_ne
    rw [hcons] at hne
    simpa [htokens, Token.word, hcons] using hne

end Control

end BuildPrune
