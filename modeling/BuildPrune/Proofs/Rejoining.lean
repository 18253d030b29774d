import BuildPrune.Proofs.Seams
import BuildPrune.Proofs.Visiting

/-!
# BuildPrune.Proofs.Rejoining

**Tokens do not run into each other.** If the marks of a tree are what they should be and it leaves
room for removals, the tokens that a visit leaves end where they should
(`Pruner.joined_visitScript`).

The invariant is that what is left of a node can take its place (`Fits`): its tokens are joined in
front of every text that looks like the one the node stood in front of, and from in front they look
like those of the node.
-/

namespace BuildPrune

namespace Pruner

/-! ### Visits

By induction on `Pruner.Keeps`, with a lemma for each rule that does more than to copy. Where an
entry of a list goes, the tokens around it meet, and `BuildPrune.Proofs.Seams` says that they are
kept apart. -/

/-- What a visit leaves of an entry can take its place, if the marks of the entry are what they
should be and it leaves room for removals. For an expression: the new tokens mimic the old ones in
front of any texts that look alike. -/
def Fits : Entry → Remains → Prop
  | .expr e, .expr e' => e.Replaces e'
  | .tail head _ visited rest, .exprs left => ∀ before after, Expr.ListShaped rest →
    Expr.listSpaced rest before = true → head.branchesApart rest before = true →
    Joined (Expr.listTokens rest) before → Resembles before after →
      (∃ more, left = visited ++ more ∧
        Mimics (Expr.listTokens rest) (Expr.listTokens more) before after) ∨
      IsSoft after ∧ ∃ n, left = visited.take n
  | .call c, .call c' => ∀ before after, c.Shaped → c.spaced before = true →
    Joined c.tokens before → Resembles before after → Mimics c.tokens c'.tokens before after
  | .receiver r?, .receiver r?' => ∀ before after, (∀ r ∈ r?, r.Shaped) →
    (∀ r ∈ r?, r.spaced before = true) → Joined (partTokens Receiver.tokens r?) before →
    Resembles before after →
      Mimics (partTokens Receiver.tokens r?) (partTokens Receiver.tokens r?') before after
  | .args a?, .args a?' => ∀ before after, (∀ a ∈ a?, a.Shaped) →
    (∀ a ∈ a?, a.spaced before = true) → (∀ a ∈ a?', a.opening = none → a.items ≠ []) →
    Joined (partTokens Arguments.tokens a?) before → Resembles before after →
      Mimics (partTokens Arguments.tokens a?) (partTokens Arguments.tokens a?') before after
  | .items items, .items decisions => Item.Replaced items decisions
  | .lambda l, .lambda l' => ∀ before after, l.Shaped → l.spaced before = true →
    Joined l.tokens before → Mimics l.tokens l'.tokens before after
  | .block l?, .block l?' => ∀ before after, (∀ l ∈ l?, l.Shaped) →
    (∀ l ∈ l?, l.spaced before = true) → Joined (partTokens Lambda.tokens l?) before →
    Resembles before after →
      Mimics (partTokens Lambda.tokens l?) (partTokens Lambda.tokens l?') before after
  | .statement s, .statement s' => s.Replaces s'
  | .statements statements, .statements decisions => Statement.Replaced statements decisions
  | _, _ => False

section Fits

variable {p : Pruner} {ctx : Context}

/-- Brackets can take the place of those around the same items, whatever follows. Inside, what is
left of the items is joined in front of the closing one. -/
theorem mimics_brackets {opening closing : Token} {items : List Item}
    {decisions : List (Option Expr)} (h : Item.Replaced items decisions)
    {before : List Char} (after : List Char) (hshaped : Brackets.Shaped ⟨opening, items, closing⟩)
    (hspaced : Brackets.spaced ⟨opening, items, closing⟩ before = true)
    (hjoined : Joined (Brackets.tokens ⟨opening, items, closing⟩) before) :
    Mimics (Brackets.tokens ⟨opening, items, closing⟩)
      (Brackets.tokens ⟨opening, Item.sweep [] decisions items, closing⟩) before after := by
  simp only [Brackets.Shaped] at hshaped
  simp only [Brackets.spaced, Bool.and_eq_true] at hspaced
  simp only [Brackets.tokens, List.cons_append, joined_cons, joined_append] at hjoined ⊢
  obtain ⟨hopening, hclosing, hseparated, hitems⟩ := hshaped
  obtain ⟨hopens, hjoined, hcloses, -⟩ := hjoined
  have hclose : Mimics [closing] [closing] before after :=
    .of_solid (solid_of_soft hclosing) hcloses trivial
  refine .of_solid hopening hopens (joined_append.2 ⟨?_, hclose.joined⟩)
  exact h.joined_sweep hitems hseparated hspaced.1 hspaced.2 hjoined hclose.like

/-- Arguments without parentheses can take the place of those before the visit if some are left.
They follow a name, so the first of them must be set apart from it. -/
theorem mimics_command {items : List Item} {decisions : List (Option Expr)}
    (h : Item.Replaced items decisions) {before after : List Char}
    (hshaped : Item.ListShaped items) (hseparated : Item.Separated items)
    (hspaced : Item.listSpaced items before = true) (hapart : Item.listApart items before = true)
    (hfirst : Item.firstApart items = true) (hleft : Item.sweep [] decisions items ≠ [])
    (hjoined : Joined (Item.listTokens items) before) (hlike : Resembles before after) :
    Mimics (Item.listTokens items) (Item.listTokens (Item.sweep [] decisions items)) before
      after := by
  refine ⟨h.joined_sweep hshaped hseparated hspaced hapart hjoined hlike, .inl ?_⟩
  have hopens := Item.opensApart_sweep decisions [] items h.length_eq.symm (by simp [Item.OpensApart])
    fun _ => hfirst
  obtain ⟨⟨expr, comma⟩, rest, hsweep⟩ := List.exists_cons_of_ne_nil hleft
  rw [hsweep] at hopens ⊢
  have hsets : SetsApart expr.firstToken.leading.toList := hopens ⟨expr, comma⟩ rfl
  obtain ⟨tokens, htokens, -⟩ := expr.exists_tokens
  rw [Item.listTokens, Item.tokens, htokens, List.cons_append, List.cons_append, spell_cons]
  exact (hsets.append _).2

/-- An empty block can take the place of everything, as a brace ends any token and ends itself. -/
theorem mimics_hollow (old : List Token) (before : List Char) {after : List Char} {leading : String}
    (hleading : IsSoft leading.toList) {more : List Expr}
    (hmore : Joined (Expr.listTokens more) after) :
    Mimics old (Expr.listTokens (.lambda (Lambda.hollow leading) :: more)) before after := by
  have htokens : Expr.listTokens (.lambda (Lambda.hollow leading) :: more) =
      (Token.bare .punct openBrace).withLeading leading :: Token.bare .punct closeBrace ::
        Expr.listTokens more := by
    simp [Expr.listTokens, Expr.tokens, Lambda.hollow, Lambda.tokens_mk, Statement.listTokens]
  rw [htokens]
  have hopen : openBrace ∈ softTexts := by decide
  have hclose : closeBrace ∈ solidTexts := by decide
  exact ⟨⟨Token.endsBefore_of_solid rfl (solid_of_soft hopen) _,
    Token.endsBefore_of_solid rfl hclose _, hmore⟩, .inl (isSoft_spell hopen hleading _ _)⟩

/-- A visit keeps parentheses. -/
theorem Keeps.opening_eq {a? a?' : Option Arguments} (h : p.Keeps ctx (.args a?) (.args a?')) :
    ∀ a' ∈ a?', ∃ a ∈ a?, a'.opening = a.opening := by
  cases h with
  | noArgs => simp
  | args _ =>
      rintro a' ⟨⟩
      exact ⟨_, rfl, rfl⟩

namespace Fits

theorem sequence {head head' : Expr} {tail tail' : List Expr}
    (hhead : Fits (.expr head) (.expr head'))
    (htail : Fits (.tail head [] [] tail) (.exprs tail')) :
    Fits (.expr (.sequence head tail)) (.expr (.sequence head' tail')) := by
  intro before after hshaped hspaced hjoined hlike
  simp only [Expr.Shaped] at hshaped
  simp only [Expr.spaced, Bool.and_eq_true] at hspaced
  simp only [Expr.tokens, joined_append] at hjoined ⊢
  obtain ⟨⟨hheadSpaced, htailSpaced⟩, hbranches⟩ := hspaced
  rcases htail before after hshaped.2 htailSpaced hbranches hjoined.2 hlike with
    ⟨more, rfl, hmimics⟩ | ⟨hsoft, n, rfl⟩
  · exact .append (hhead _ _ hshaped.1 hheadSpaced hjoined.1 hmimics.like) hmimics
  · -- The whole tail is cut away, so the head comes to stand in front of the soft text.
    have hleft := hhead _ after hshaped.1 hheadSpaced hjoined.1 (.inl hsoft)
    rw [List.take_nil, Expr.listTokens, List.append_nil]
    refine ⟨hleft.joined, ?_⟩
    rw [spell_append]
    exact hleft.like

/-- One more expression of a tail is visited. It comes to stand in front of what is left of the
rest, or at the end, where a cut puts soft text behind it. -/
theorem tail_cons {e e' : Expr} {visited rest left : List Expr} {before after : List Char}
    (hrest : (∃ more, left = visited ++ [e'] ++ more ∧
        Mimics (Expr.listTokens rest) (Expr.listTokens more) before after) ∨
      IsSoft after ∧ ∃ n, left = (visited ++ [e']).take n)
    (hnext : ∀ more, Mimics (Expr.listTokens rest) (Expr.listTokens more) before after →
      Mimics (Expr.listTokens (e :: rest)) (Expr.listTokens (e' :: more)) before after)
    (hlast : IsSoft after →
      Mimics (Expr.listTokens (e :: rest)) (Expr.listTokens [e']) before after) :
    (∃ more, left = visited ++ more ∧
        Mimics (Expr.listTokens (e :: rest)) (Expr.listTokens more) before after) ∨
      IsSoft after ∧ ∃ n, left = visited.take n := by
  rcases hrest with ⟨more, rfl, hmimics⟩ | ⟨hsoft, n, rfl⟩
  · exact .inl ⟨e' :: more, by simp, hnext more hmimics⟩
  · by_cases hn : n ≤ visited.length
    · exact .inr ⟨hsoft, n, List.take_append_of_le_length hn⟩
    · exact .inl ⟨[e'], List.take_of_length_le (by simp; omega), hlast hsoft⟩

theorem tailNext {head e e' : Expr} {seen visited rest left : List Expr}
    (hexpr : Fits (.expr e) (.expr e'))
    (hrest : Fits (.tail head (seen ++ [e]) (visited ++ [e']) rest) (.exprs left)) :
    Fits (.tail head seen visited (e :: rest)) (.exprs left) := by
  intro before after hshaped hspaced hbranches hjoined hlike
  simp only [Expr.ListShaped] at hshaped
  simp only [Expr.listSpaced, Bool.and_eq_true] at hspaced
  rw [Expr.listTokens, joined_append] at hjoined
  have hkept {behind : List Char} := hexpr _ behind hshaped.1 hspaced.1 hjoined.1
  refine tail_cons (hrest before after hshaped.2 hspaced.2 (Expr.branchesApart_of_cons hbranches)
    hjoined.2 hlike) (fun more hmimics => ?_) (fun hsoft => ?_)
  · rw [Expr.listTokens, Expr.listTokens]
    exact .append (hkept hmimics.like) hmimics
  · have hlast := hkept (.inl hsoft)
    rw [Expr.listTokens, Expr.listTokens, Expr.listTokens, List.append_nil]
    refine ⟨hlast.joined, ?_⟩
    rw [spell_append]
    exact hlast.like

theorem tailHollow {head e : Expr} {seen visited rest left : List Expr}
    (hbody : isControlBody head seen = true)
    (hrest : Fits (.tail head (seen ++ [e]) (visited ++ [.lambda (Lambda.hollow e.leading)]) rest)
      (.exprs left)) :
    Fits (.tail head seen visited (e :: rest)) (.exprs left) := by
  intro before after hshaped hspaced hbranches hjoined hlike
  simp only [Expr.ListShaped] at hshaped
  simp only [Expr.listSpaced, Bool.and_eq_true] at hspaced
  rw [Expr.listTokens, joined_append] at hjoined
  have hsoft : IsSoft e.leading.toList :=
    ((Expr.branchesApart_iff (Bool.and_eq_true_iff.1 hbody).1).1 hbranches).2 e
      List.mem_cons_self
  refine tail_cons (hrest before after hshaped.2 hspaced.2 (Expr.branchesApart_of_cons hbranches)
    hjoined.2 hlike) (fun more hmimics => mimics_hollow _ _ hsoft hmimics.joined) (fun _ => ?_)
  refine mimics_hollow _ _ hsoft ?_
  rw [Expr.listTokens]
  trivial

/-- The parts of a call are replaced from the last to the first, since each has to look like the old
one to the part in front of it. -/
theorem call {c : Call} {receiver : Option Receiver} {args : Option Arguments}
    {lambda : Option Lambda} (hreceiver : Fits (.receiver c.receiver) (.receiver receiver))
    (hargs : Fits (.args c.args) (.args args))
    (hopening : ∀ a ∈ args, ∃ a' ∈ c.args, a.opening = a'.opening)
    (hstyle : c.style ≠ .regular → ∀ a ∈ args, a.items ≠ [])
    (hlambda : Fits (.block c.lambda) (.block lambda)) :
    Fits (.call c) (.call ⟨receiver, c.name, c.types, args, lambda, c.style⟩) := by
  obtain ⟨receiver', name, types, args', lambda', style⟩ := c
  intro before after hshaped hspaced hjoined hlike
  rw [Call.shaped_mk] at hshaped
  rw [Call.spaced_mk] at hspaced
  rw [Call.tokens_mk] at hjoined
  rw [Call.tokens_mk, Call.tokens_mk]
  obtain ⟨hreceiverShaped, hargsShaped, hlambdaShaped, hparens⟩ := hshaped
  obtain ⟨hreceiverSpaced, hargsSpaced, hlambdaSpaced⟩ := hspaced
  simp only [joined_append, joined_cons] at hjoined
  obtain ⟨hreceiverJoined, hname, htypes, hargsJoined, hlambdaJoined⟩ := hjoined
  have hleft : ∀ a ∈ args, a.opening = none → a.items ≠ [] := by
    intro a ha hnone
    by_cases hregular : style = .regular
    · obtain ⟨a', ha', heq⟩ := hopening a ha
      have hsome := hparens hregular a' ha'
      rw [← heq, hnone] at hsome
      cases hsome
    · exact hstyle hregular a ha
  have hblock := hlambda before after hlambdaShaped hlambdaSpaced hlambdaJoined hlike
  have hparts := (hargs _ _ hargsShaped hargsSpaced hleft hargsJoined hblock.like).append hblock
  have hcall := Mimics.cons (by simpa using hname) (Mimics.prepend (by simpa using htypes) hparts)
  refine .append (hreceiver _ _ hreceiverShaped hreceiverSpaced ?_ hcall.like) hcall
  simpa using hreceiverJoined

theorem args {opening closing : Option Token} {items : List Item}
    {decisions : List (Option Expr)} (h : Item.Replaced items decisions) :
    Fits (.args (some ⟨opening, items, closing⟩))
      (.args (some ⟨opening, Item.sweep [] decisions items, closing⟩)) := by
  intro before after hshaped hspaced hleft hjoined hlike
  have hshaped := hshaped _ rfl
  have hspaced := hspaced _ rfl
  simp only [Arguments.Shaped] at hshaped
  simp only [Arguments.spaced, Bool.and_eq_true] at hspaced
  obtain ⟨hopening, hclosing, hboth, hseparated, hitems⟩ := hshaped
  obtain ⟨⟨hlist, hapart⟩, hfirst⟩ := hspaced
  simp only [partTokens_some, Arguments.tokens] at hjoined ⊢
  cases opening with
  | none =>
      obtain rfl : closing = none := by simpa using hboth.symm
      simp only [Option.toList_none, List.nil_append, List.append_nil, spell_nil,
        Option.isSome_none, Bool.false_or] at hjoined hlist hapart hfirst ⊢
      exact mimics_command h hitems hseparated hlist hapart hfirst (hleft _ rfl rfl) hjoined hlike
  | some opening =>
      -- Between parentheses the items are those of a bracketed list.
      obtain ⟨closing, rfl⟩ : ∃ t, closing = some t := Option.isSome_iff_exists.1 hboth.symm
      have hbrackets : Brackets.Shaped ⟨opening, items, closing⟩ := by
        rw [Brackets.Shaped]
        exact ⟨hopening _ rfl, hclosing _ rfl, hseparated, hitems⟩
      have hroom : Brackets.spaced ⟨opening, items, closing⟩ before = true := by
        rw [Brackets.spaced, Bool.and_eq_true]
        exact ⟨hlist, hapart⟩
      have hmimics := mimics_brackets h after hbrackets hroom
        (by simpa [Brackets.tokens] using hjoined)
      simpa [Brackets.tokens] using hmimics

theorem lambda {keep : Statement → Bool} {opening closing : Token} {params : Option LambdaParams}
    {body sifted swept : List Statement} {decisions kept : List (Option Statement)}
    {siftedTrailer trailer : String} (h : Statement.Replaced body decisions)
    (hsift : Statement.sift keep true decisions body closing.leading =
      (kept, sifted, siftedTrailer))
    (hsweep : Statement.sweep true kept sifted siftedTrailer = (swept, trailer)) :
    Fits (.lambda ⟨opening, params, body, closing⟩)
      (.lambda ⟨opening, params, swept, closing.withLeading trailer⟩) := by
  intro before after hshaped hspaced hjoined
  rw [Lambda.Shaped] at hshaped
  simp only [Lambda.spaced, Bool.and_eq_true] at hspaced
  obtain ⟨hopening, hparams, hclosing, hbodyShaped⟩ := hshaped
  simp only [Lambda.tokens_mk, joined_cons, joined_append] at hjoined ⊢
  obtain ⟨hopens, hparamsJoined, hbodyJoined, hcloses, -⟩ := hjoined
  obtain ⟨hmatched, hsifted⟩ := Statement.listApart_sift keep decisions true true body
    closing.leading h.matched hspaced.2
  have hkept := Statement.sift_sublist keep decisions true body closing.leading
    h.matched.length_eq.symm
  rw [hsift] at hmatched hsifted hkept
  have hswept := Statement.listApart_sweep kept true true sifted siftedTrailer hmatched hsifted
  have htight := Statement.tight_sweep true siftedTrailer hmatched.length_eq.symm fun s hs =>
    h.tight hbodyShaped hspaced.1 hbodyJoined s ((hkept.filterMap id).subset hs)
  rw [hsweep] at hswept htight
  refine .of_solid hopening hopens (joined_append.2 ⟨?_, joined_append.2 ⟨?_, ?_, trivial⟩⟩)
  · cases params with
    | none => trivial
    | some params => exact hparamsJoined.of_solid_end (hparams params rfl) _
  · refine Statement.joined_of_tight (fun hsoft => ?_) hswept htight
    exact isSoft_spell (t := closing.withLeading trailer) hclosing hsoft [] after
  · exact (hcloses.of_solid (solid_of_soft hclosing) _).withLeading trailer

theorem importing (path : Import) : Fits (.statement (.importing path))
    (.statement (.importing path)) := by
  refine ⟨rfl, fun before hshaped _ hjoined => ⟨hjoined.softJoined, fun hends rest => ?_⟩⟩
  obtain ⟨keyword, modifier, names, asName, semicolon⟩ := path
  obtain ⟨semicolon, rfl⟩ := Option.isSome_iff_exists.1 hends
  rw [Statement.Shaped] at hshaped
  rw [Statement.tokens, Import.tokens] at hjoined ⊢
  exact hjoined.of_solid_end (solid_of_soft (hshaped semicolon rfl)) rest

/-- A semicolon shields the expression from what follows; without one, only soft text can. -/
theorem expression {e e' : Expr} {semicolon : Option Token} (h : Fits (.expr e) (.expr e')) :
    Fits (.statement (.expression e semicolon)) (.statement (.expression e' semicolon)) := by
  refine ⟨rfl, fun before hshaped hspaced hjoined => ?_⟩
  simp only [Statement.Shaped] at hshaped
  simp only [Statement.spaced] at hspaced
  rw [Statement.tokens, joined_append] at hjoined
  rw [Statement.Tight, Statement.tokens]
  refine ⟨fun rest hrest => ?_, fun hends rest => ?_⟩
  · have hend : Mimics semicolon.toList semicolon.toList before rest :=
      .same hjoined.2 (.inl hrest)
    exact joined_append.2 ⟨(h _ _ hshaped.1 hspaced hjoined.1 hend.like).joined, hend.joined⟩
  · obtain ⟨semicolon, rfl⟩ := Option.isSome_iff_exists.1 hends
    have hend : Mimics [semicolon] [semicolon] before rest :=
      .of_solid (solid_of_soft (hshaped.2 semicolon rfl)) hjoined.2.1 trivial
    exact joined_append.2 ⟨(h _ _ hshaped.1 hspaced hjoined.1 hend.like).joined, hend.joined⟩

end Fits

/-- What a visit leaves can take the place of what was visited. The induction is on `Keeps`, with
one of the lemmas above for each kind of node. -/
theorem Keeps.fits {entry : Entry} {remains : Remains} (h : p.Keeps ctx entry remains) :
    Fits entry remains := by
  -- What follows the last part of a node is what follows the node. In front of the other parts it
  -- is enough that what follows them begins alike.
  induction h with
  | atom =>
      intro before after _ _ hjoined hlike
      exact .same hjoined hlike
  | callExpr _ ih =>
      intro before after hshaped hspaced hjoined hlike
      simp only [Expr.Shaped, Expr.spaced, Expr.tokens] at hshaped hspaced hjoined ⊢
      exact ih before after hshaped hspaced hjoined hlike
  | lambdaExpr _ ih =>
      intro before after hshaped hspaced hjoined _
      simp only [Expr.Shaped, Expr.spaced, Expr.tokens] at hshaped hspaced hjoined ⊢
      exact ih before after hshaped hspaced hjoined
  | annotatedNothing =>
      intro before after _ _ hjoined hlike
      exact .same hjoined hlike
  | annotated _ ih =>
      intro before after hshaped hspaced hjoined hlike
      simp only [Expr.Shaped, Expr.spaced] at hshaped hspaced
      simp only [Expr.tokens_annotated, partTokens_some, ← List.append_assoc, ← List.cons_append,
        joined_append] at hjoined ⊢
      exact .prepend (joined_append.2 hjoined.1) (ih before after hshaped hspaced hjoined.2 hlike)
  | field _ ih =>
      intro before after hshaped hspaced hjoined hlike
      simp only [Expr.Shaped, Expr.spaced] at hshaped hspaced
      rw [Expr.tokens, joined_append] at hjoined
      rw [Expr.tokens, Expr.tokens]
      exact .extend hjoined.2 hlike (ih _ _ hshaped hspaced hjoined.1 (hlike.spell _))
  | paren _ ih =>
      intro before after hshaped hspaced hjoined hlike
      simp only [Expr.Shaped, Expr.spaced] at hshaped hspaced
      simp only [Expr.tokens, List.cons_append, joined_cons, joined_append] at hjoined ⊢
      obtain ⟨hopening, hinner, hclosing⟩ := hjoined
      exact .cons hopening
        (.extend hclosing hlike (ih _ _ hshaped hspaced hinner (hlike.spell _)))
  | index _ _ ihtarget ihitems =>
      intro before after hshaped hspaced hjoined hlike
      simp only [Expr.Shaped] at hshaped
      simp only [Expr.spaced, Bool.and_eq_true] at hspaced
      simp only [Expr.tokens, joined_append] at hjoined ⊢
      have hbrackets := mimics_brackets ihitems after hshaped.2 hspaced.2 hjoined.2
      exact .append (ihtarget _ _ hshaped.1 hspaced.1 hjoined.1 hbrackets.like) hbrackets
  | binary _ _ ihleft ihright =>
      intro before after hshaped hspaced hjoined hlike
      simp only [Expr.Shaped] at hshaped
      simp only [Expr.spaced, Bool.and_eq_true] at hspaced
      simp only [Expr.tokens, joined_append, joined_cons] at hjoined ⊢
      obtain ⟨hleft, hop, hright⟩ := hjoined
      have hbehind := Mimics.cons hop (ihright _ _ hshaped.2 hspaced.2 hright hlike)
      exact .append (ihleft _ _ hshaped.1 hspaced.1 hleft hbehind.like) hbehind
  | prefixed _ ih =>
      intro before after hshaped hspaced hjoined hlike
      simp only [Expr.Shaped, Expr.spaced, Expr.tokens, joined_cons] at hshaped hspaced hjoined ⊢
      exact .cons hjoined.1 (ih _ _ hshaped hspaced hjoined.2 hlike)
  | postfixed _ ih =>
      intro before after hshaped hspaced hjoined hlike
      simp only [Expr.Shaped, Expr.spaced] at hshaped hspaced
      rw [Expr.tokens, joined_append] at hjoined
      rw [Expr.tokens, Expr.tokens]
      exact .extend hjoined.2 hlike (ih _ _ hshaped hspaced hjoined.1 (hlike.spell _))
  | list _ ih =>
      intro before after hshaped hspaced hjoined _
      simp only [Expr.Shaped, Expr.spaced, Expr.tokens] at hshaped hspaced hjoined ⊢
      exact mimics_brackets ih after hshaped hspaced hjoined
  | sequence _ _ ihhead ihtail => exact Fits.sequence ihhead ihtail
  | tailEnd =>
      intro before after _ _ _ _ hlike
      refine .inl ⟨[], (List.append_nil _).symm, ?_⟩
      rw [Expr.listTokens]
      exact .nil hlike
  | tailNext _ _ ihexpr ihrest => exact Fits.tailNext ihexpr ihrest
  | tailHollow _ hbody _ _ ihrest => exact Fits.tailHollow hbody ihrest
  | tailCut _ hbody _ =>
      intro before after _ _ hbranches _ hlike
      have hsoft := (Expr.branchesApart_iff (Bool.and_eq_true_iff.1 hbody).1).1 hbranches
      exact .inr ⟨hlike.isSoft hsoft.1, _, rfl⟩
  | call _ _ hargs hstyle _ _ ihreceiver ihargs ihlambda =>
      exact Fits.call ihreceiver ihargs hargs.opening_eq hstyle ihlambda
  | noReceiver | noBlock =>
      intro before after _ _ _ hlike
      exact .nil hlike
  | noArgs =>
      intro before after _ _ _ _ hlike
      exact .nil hlike
  | receiver _ ih =>
      intro before after hshaped hspaced hjoined hlike
      have hshaped := hshaped _ rfl
      have hspaced := hspaced _ rfl
      simp only [Receiver.Shaped, Receiver.spaced] at hshaped hspaced
      simp only [partTokens_some, Receiver.tokens, joined_append] at hjoined ⊢
      exact .extend hjoined.2 hlike (ih _ _ hshaped hspaced hjoined.1 (hlike.spell _))
  | args _ ih => exact Fits.args ih
  | itemsEnd => exact .nil
  | itemKept _ _ ihexpr ihitems =>
      refine .cons ?_ ihitems
      rintro e ⟨⟩
      exact ihexpr
  | itemGone _ _ ihitems => exact .cons (by simp) ihitems
  | block _ ih =>
      intro before after hshaped hspaced hjoined _
      exact ih before after (hshaped _ rfl) (hspaced _ rfl) hjoined
  | lambda _ hsift hsweep ih => exact Fits.lambda ih hsift hsweep
  | importing _ => exact Fits.importing _
  | expression _ ih => exact Fits.expression ih
  | empty =>
      refine ⟨rfl, fun before hshaped _ hjoined => ⟨hjoined.softJoined, fun _ rest => ?_⟩⟩
      rw [Statement.Shaped] at hshaped
      rw [Statement.tokens] at hjoined ⊢
      exact ⟨hjoined.1.of_solid (solid_of_soft hshaped) rest, trivial⟩
  | statementsEnd => exact .nil
  | statementKept _ _ ihstatement ihstatements =>
      refine .cons ?_ ihstatements
      rintro s ⟨⟩
      exact ihstatement
  | statementGone _ _ ihstatements => exact .cons (by simp) ihstatements

end Fits

/-- The tokens of a visited script are joined if those of the script were, its marks are what they
should be, and it leaves room for removals. -/
theorem joined_visitScript (p : Pruner) {script : Script}
    (hshaped : Statement.ListShaped script.statements) (hspaced : script.spaced = true)
    (hjoined : Joined script.tokens script.eof.toList) :
    Joined (p.visitScript script).1.tokens (p.visitScript script).1.eof.toList := by
  have hkeeps := keeps_statements p {} script.statements
  have hreplaced : Statement.Replaced _ _ := hkeeps.fits
  rw [Script.spaced, Bool.and_eq_true] at hspaced
  have hapart := Statement.listApart_sweep _ true true script.statements script.eof
    hreplaced.matched hspaced.2
  have htight := Statement.tight_sweep true script.eof hkeeps.length_eq
    (hreplaced.tight hshaped hspaced.1 hjoined)
  exact Statement.joined_of_tight id hapart htight

end Pruner

end BuildPrune
