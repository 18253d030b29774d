import BuildPrune.Proofs.Shapes
import BuildPrune.Proofs.Spacing
import BuildPrune.Proofs.TriviaEdits

/-!
# BuildPrune.Proofs.Seams

What meets in a list where an entry went. Where something can go, what follows each entry of the
list is soft, so it is enough that the entries that stay are joined in front of every soft text
(`SoftJoined`): then what is left of the list is joined (`Item.Replaced.joined_sweep`,
`Statement.joined_of_tight`).
-/

namespace BuildPrune

/-! ### Tokens in front of soft text -/

/-- The tokens are joined in front of every soft text. -/
def SoftJoined (tokens : List Token) : Prop :=
  ∀ rest, IsSoft rest → Joined tokens rest

/-- Tokens that are joined in front of one text are joined in front of every soft text. A soft text
opens with what ends any token, whatever it ended before. -/
theorem Joined.softJoined {tokens : List Token} {rest : List Char} (h : Joined tokens rest) :
    SoftJoined tokens :=
  fun _ hsoft => h.of_isSoft hsoft

theorem Joined.exists_endsBefore : ∀ {tokens : List Token} {rest : List Char},
    Joined tokens rest → ∀ t ∈ tokens, ∃ behind, t.EndsBefore behind
  | [], _, _, _, ht => by cases ht
  | _ :: _, _, ⟨hends, hmore⟩, t, ht => by
      rcases List.mem_cons.1 ht with rfl | ht
      · exact ⟨_, hends⟩
      · exact hmore.exists_endsBefore t ht

/-- The texts that count as soft when they follow are among those that nothing can be read into. -/
theorem solid_of_soft {text : String} (h : text ∈ softTexts) : text ∈ solidTexts := by
  have hall : ∀ text ∈ softTexts, text ∈ solidTexts := by decide
  exact hall text h

/-- Tokens that end with a bracket or a separator are joined in front of everything, since no
spelling goes on from there. -/
theorem Joined.of_solid_end {tokens : List Token} {t : Token} {rest : List Char}
    (h : Joined (tokens ++ [t]) rest) (hsolid : t.text ∈ solidTexts) (rest' : List Char) :
    Joined (tokens ++ [t]) rest' := by
  obtain ⟨htokens, hends, -⟩ := joined_append.1 h
  have hend : Mimics [t] [t] rest rest' := .of_solid hsolid hends trivial
  exact joined_append.2 ⟨htokens.of_resembles hend.like, hend.joined⟩

/-- A closing bracket or a separator that is read on its own, whatever precedes and follows it. -/
structure Token.IsMark (t : Token) : Prop where
  text : t.text ∈ softTexts
  leading : IsSoft t.leading.toList
  ends : ∀ rest, t.EndsBefore rest

/-! ### Lists of items

When an item goes, the next one comes to stand where it stood, behind a bracket or a comma; if it
was the last, its comma goes to the one before. In a command there is no bracket in front of the
first item, so the trivia of the next has to set it apart. -/

namespace Item

/-- The expression is joined in front of soft text, and the comma is a mark. -/
def Tight (item : Item) : Prop :=
  SoftJoined item.expr.tokens ∧ ∀ comma ∈ item.comma, comma.IsMark

/-- Tight items are joined in front of soft text, if there are commas between them. A comma is soft
for the item in front of it and solid for the next one. -/
theorem joined_of_tight {rest : List Char} (hrest : IsSoft rest) : ∀ {items : List Item},
    (∀ item ∈ items, item.Tight) → (∀ item ∈ items.dropLast, item.comma.isSome) →
      Joined (listTokens items) rest
  | [], _, _ => by
      rw [listTokens]
      trivial
  | [⟨expr, none⟩], htight, _ => by
      -- Without a comma the text behind the list has to be soft.
      obtain ⟨hexpr, -⟩ := htight _ List.mem_cons_self
      simpa [listTokens, Item.tokens] using hexpr rest hrest
  | [⟨expr, some comma⟩], htight, _ => by
      obtain ⟨hexpr, hcomma⟩ := htight _ List.mem_cons_self
      have hmark := hcomma comma rfl
      have hfront := hexpr _ (isSoft_spell hmark.text hmark.leading [] rest)
      rw [listTokens, listTokens, Item.tokens, List.append_nil]
      exact joined_append.2 ⟨hfront, hmark.ends _, trivial⟩
  | ⟨expr, none⟩ :: next :: more, _, hcommas => by
      have hcomma := hcommas ⟨expr, none⟩ (by simp)
      cases hcomma
  | ⟨expr, some comma⟩ :: next :: more, htight, hcommas => by
      obtain ⟨⟨hexpr, hcomma⟩, hmore⟩ := List.forall_mem_cons.1 htight
      have hmark := hcomma comma rfl
      have hrec : Joined (listTokens (next :: more)) rest := by
        refine joined_of_tight hrest hmore fun item hitem => hcommas item ?_
        rw [List.dropLast_cons_cons]
        exact List.mem_cons_of_mem _ hitem
      have hfront := hexpr _ (isSoft_spell hmark.text hmark.leading (listTokens (next :: more)) rest)
      rw [listTokens, Item.tokens, Option.toList_some, List.append_assoc, List.singleton_append]
      exact joined_append.2 ⟨hfront, hmark.ends _, hrec⟩

/-- An item that becomes the last gets the comma of the one that was last, so it is enough that this
is a mark. -/
theorem tight_closeWith {comma : Option Token} (hcomma : ∀ t ∈ comma, t.IsMark) :
    ∀ {items : List Item}, (∀ item ∈ items, item.Tight) →
      ∀ item ∈ closeWith comma items, item.Tight
  | [], _ => by simp [closeWith]
  | [last], htight => by
      rw [closeWith, List.forall_mem_singleton]
      exact ⟨(htight last List.mem_cons_self).1, hcomma⟩
  | item :: next :: rest, htight => by
      obtain ⟨hitem, hrest⟩ := List.forall_mem_cons.1 htight
      exact List.forall_mem_cons.2 ⟨hitem, tight_closeWith hcomma hrest⟩

theorem dropLast_closeWith (comma : Option Token) : ∀ items : List Item,
    (closeWith comma items).dropLast = items.dropLast
  | [] => rfl
  | [_] => rfl
  | item :: next :: rest => by
      have hrest := dropLast_closeWith comma (next :: rest)
      have hne : closeWith comma (next :: rest) ≠ [] := by
        intro hempty
        have hlength := congrArg List.length (map_expr_closeWith comma (next :: rest))
        simp [hempty] at hlength
      have hclose : closeWith comma (item :: next :: rest) =
          item :: closeWith comma (next :: rest) := rfl
      rw [hclose, List.dropLast_cons_of_ne_nil hne, hrest, List.dropLast_cons_cons]

/-- Sweeping keeps items tight and commas between them. Of the commas only that of the last item can
go, and it is handed back to the item before it. -/
theorem tight_sweep : ∀ (decisions : List (Option Expr)) (before items : List Item),
    decisions.length = items.length → (∀ item ∈ before, item.Tight) →
      (∀ item ∈ items, ∀ comma ∈ item.comma, comma.IsMark) →
      (∀ item ∈ (before ++ items).dropLast, item.comma.isSome) →
      (∀ e ∈ decisions.filterMap id, SoftJoined e.tokens) →
      (∀ item ∈ sweep before decisions items, item.Tight) ∧
        ∀ item ∈ (sweep before decisions items).dropLast, item.comma.isSome
  -- The items in `before` are decided on and tight; those still to come have marks for commas.
  | [], before, [], _, hbefore, _, hcommas, _ => by
      rw [List.append_nil] at hcommas
      rw [sweep_nil, List.append_nil]
      exact ⟨hbefore, hcommas⟩
  | some decided :: decisions, before, item :: rest, hlength, hbefore, hmarks, hcommas, hjoined => by
      obtain ⟨hmark, hmarks⟩ := List.forall_mem_cons.1 hmarks
      obtain ⟨hdecided, hjoined⟩ := List.forall_mem_cons.1 hjoined
      rw [sweep_some]
      refine tight_sweep decisions _ rest (Nat.succ.inj hlength) ?_ hmarks ?_ hjoined
      · intro item' hitem'
        rcases List.mem_append.1 hitem' with hitem' | hitem'
        · exact hbefore item' hitem'
        · rw [List.mem_singleton.1 hitem']
          exact ⟨fun rest hrest => Expr.joined_withLeading (hdecided rest hrest) _, hmark⟩
      · rw [List.append_assoc, List.singleton_append]
        rw [List.dropLast_append_cons, List.forall_mem_append] at hcommas ⊢
        refine ⟨hcommas.1, ?_⟩
        cases rest with
        | nil => simp
        | cons next rest => simpa using hcommas.2
  | none :: decisions, before, [last], hlength, hbefore, hmarks, hcommas, hjoined => by
      obtain rfl : decisions = [] := List.eq_nil_of_length_eq_zero (Nat.succ.inj hlength)
      rw [List.dropLast_append_cons, List.dropLast_singleton, List.append_nil] at hcommas
      rw [sweep_last, dropLast_closeWith]
      exact ⟨tight_closeWith (hmarks last List.mem_cons_self) hbefore,
        fun item hitem => hcommas item ((List.dropLast_sublist before).subset hitem)⟩
  | none :: decisions, before, item :: next :: rest, hlength, hbefore, hmarks, hcommas, hjoined => by
      -- The comma that goes is the one in front of `next`, which keeps its own.
      have hcomma : (takeOver item next).comma = next.comma := by
        unfold takeOver
        split <;> rfl
      obtain ⟨-, hmarks⟩ := List.forall_mem_cons.1 hmarks
      obtain ⟨hmark, hmarks⟩ := List.forall_mem_cons.1 hmarks
      rw [sweep_next]
      refine tight_sweep decisions before (takeOver item next :: rest) (Nat.succ.inj hlength) hbefore
        (List.forall_mem_cons.2 ⟨by rw [hcomma]; exact hmark, hmarks⟩) ?_ hjoined
      rw [List.dropLast_append_cons, List.forall_mem_append] at hcommas ⊢
      refine ⟨hcommas.1, ?_⟩
      cases rest with
      | nil => simp
      | cons third rest =>
          simp only [List.dropLast_cons_cons, List.forall_mem_cons] at hcommas ⊢
          exact ⟨by rw [hcomma]; exact hcommas.2.2.1, hcommas.2.2.2⟩

/-- The first item is set apart from what precedes the list. -/
def OpensApart (items : List Item) : Prop :=
  ∀ item ∈ items.head?, SetsApart item.expr.leading.toList

theorem opensApart_closeWith {comma : Option Token} : ∀ {items : List Item}, OpensApart items →
    OpensApart (closeWith comma items)
  | [], h => h
  | [last], h => by
      rintro item ⟨⟩
      exact h last rfl
  | item :: next :: rest, h => by
      rintro item' ⟨⟩
      exact h item rfl

theorem firstApart_takeOver {item next : Item} {rest : List Item}
    (h : firstApart (item :: next :: rest) = true) :
    firstApart (takeOver item next :: rest) = true := by
  simp only [firstApart, List.all_cons, Bool.and_eq_true, decide_eq_true_eq] at h ⊢
  obtain ⟨hitem, hnext, hrest⟩ := h
  refine ⟨?_, hrest⟩
  unfold takeOver
  split
  · next hline =>
      refine ⟨fun hempty => ?_, hnext⟩
      rw [Token.startsLine] at hline
      rw [Expr.leading] at hempty
      simp [hempty] at hline
  · rw [Expr.leading_withLeading, String.toList_append]
    exact hitem.append _

/-- What is left of the arguments of a command is set apart from its name. If the first goes, the
next one takes its place and its trivia, and was set apart as one that can become the first. -/
theorem opensApart_sweep : ∀ (decisions : List (Option Expr)) (before items : List Item),
    decisions.length = items.length → OpensApart before →
      (before = [] → firstApart items = true) → OpensApart (sweep before decisions items)
  | [], before, [], _, hbefore, _ => by
      rw [sweep_nil, List.append_nil]
      exact hbefore
  | some decided :: decisions, before, item :: rest, hlength, hbefore, hfirst => by
      rw [sweep_some]
      refine opensApart_sweep decisions _ rest (Nat.succ.inj hlength) ?_ (by simp)
      cases before with
      | nil =>
          have hitem := hfirst rfl
          simp only [firstApart, Bool.and_eq_true, decide_eq_true_eq] at hitem
          rintro item' ⟨⟩
          rw [Expr.leading_withLeading]
          exact hitem.1
      | cons first before => exact hbefore
  | none :: decisions, before, [last], hlength, hbefore, _ => by
      obtain rfl : decisions = [] := List.eq_nil_of_length_eq_zero (Nat.succ.inj hlength)
      rw [sweep_last]
      exact opensApart_closeWith hbefore
  | none :: decisions, before, item :: next :: rest, hlength, hbefore, hfirst => by
      rw [sweep_next]
      exact opensApart_sweep decisions before _ (Nat.succ.inj hlength) hbefore fun hempty =>
        firstApart_takeOver (hfirst hempty)

theorem mem_listTokens {item : Item} {t : Token} (ht : t ∈ item.tokens) : ∀ {items : List Item},
    item ∈ items → t ∈ listTokens items
  | _ :: rest, hitem => by
      rw [listTokens, List.mem_append]
      rcases List.mem_cons.1 hitem with rfl | hitem
      · exact .inl ht
      · exact .inr (mem_listTokens ht hitem)

end Item

/-- `new` can take the place of `old`, which leaves room for removals. -/
def Expr.Replaces (old new : Expr) : Prop :=
  ∀ before after, old.Shaped → old.spaced before = true → Joined old.tokens before →
    Resembles before after → Mimics old.tokens new.tokens before after

/-- The decisions can take the places of the items they were made about. -/
def Item.Replaced (items : List Item) (decisions : List (Option Expr)) : Prop :=
  List.Forall₂ (fun item decision => ∀ e ∈ decision, item.expr.Replaces e) items decisions

namespace Item

/-- What is left of an item can stand in front of any soft text, because it takes the place of an
item that was joined in front of one. -/
theorem Replaced.softJoined {items : List Item} {decisions : List (Option Expr)}
    (h : Replaced items decisions) {rest : List Char} (hshaped : ListShaped items)
    (hspaced : listSpaced items rest = true) (hjoined : Joined (listTokens items) rest) :
    ∀ e ∈ decisions.filterMap id, SoftJoined e.tokens := by
  induction h with
  | nil => simp
  | @cons item decision items decisions hreplaces _ ih =>
      obtain ⟨expr, comma⟩ := item
      simp only [ListShaped] at hshaped
      simp only [listSpaced, Bool.and_eq_true] at hspaced
      rw [listTokens, Item.tokens, List.append_assoc, joined_append] at hjoined
      have hrest := ih hshaped.2 hspaced.2 (joined_append.1 hjoined.2).2
      cases decision with
      | none => exact hrest
      | some e =>
          refine List.forall_mem_cons.2 ⟨fun after hafter => ?_, hrest⟩
          have hmimics := hreplaces e rfl _ after hshaped.1 hspaced.1 hjoined.1 (.inl hafter)
          exact hmimics.joined

/-- The commas of joined items are marks. What precedes such a comma is an expression that was read
up to it, and what follows it is soft or an item. -/
theorem isMark_of_joined {items : List Item} {rest : List Char}
    (hjoined : Joined (listTokens items) rest) (hseparated : Separated items)
    (hsoft : ∀ item ∈ items, ∀ comma ∈ item.comma, IsSoft comma.leading.toList) :
    ∀ item ∈ items, ∀ comma ∈ item.comma, comma.IsMark := by
  intro item hitem comma hcomma
  have htext := hseparated.1 item hitem comma hcomma
  have hmem : comma ∈ listTokens items := by
    refine mem_listTokens ?_ hitem
    obtain ⟨expr, comma'⟩ := item
    rw [Item.tokens]
    exact List.mem_append_right _ (Option.mem_toList.2 hcomma)
  obtain ⟨behind, hends⟩ := hjoined.exists_endsBefore comma hmem
  exact ⟨htext, hsoft item hitem comma hcomma, hends.of_solid (solid_of_soft htext)⟩

/-- What is left of a list of items is joined. Two items that come to stand side by side have a
comma between them, and the last has in front of it what the list was written in front of. -/
theorem Replaced.joined_sweep {items : List Item} {decisions : List (Option Expr)}
    (h : Replaced items decisions) {before after : List Char} (hshaped : ListShaped items)
    (hseparated : Separated items) (hspaced : listSpaced items before = true)
    (hapart : listApart items before = true) (hjoined : Joined (listTokens items) before)
    (hlike : Resembles before after) : Joined (listTokens (sweep [] decisions items)) after := by
  -- A list of one item need not stand in front of soft text: what follows the item stays there,
  -- or nothing is left to join to it.
  by_cases hfew : items.length < 2
  · match items, decisions, h with
    | [], _, .nil =>
        rw [sweep_nil]
        exact hjoined
    | [last], [none], _ =>
        rw [sweep_last]
        trivial
    | [⟨expr, comma⟩], [some e], .cons hreplaces _ =>
        simp only [ListShaped, and_true] at hshaped
        simp only [listSpaced, listTokens, List.append_nil, Bool.and_true] at hspaced
        simp only [listTokens, Item.tokens, List.append_nil, joined_append] at hjoined
        have hcomma : Mimics comma.toList comma.toList before after := .same hjoined.2 hlike
        have hexpr := hreplaces e rfl _ _ hshaped hspaced hjoined.1 hcomma.like
        rw [sweep_some, sweep_nil]
        simp only [List.nil_append, List.append_nil, listTokens, Item.tokens, joined_append]
        exact ⟨Expr.joined_withLeading hexpr.joined _, hcomma.joined⟩
  · simp only [listApart, decide_eq_false hfew, Bool.false_or, Bool.and_eq_true, decide_eq_true_eq,
      List.all_eq_true, Option.all_eq_true] at hapart
    obtain ⟨hsoft, hcommas⟩ := hapart
    obtain ⟨htight, hclosed⟩ := tight_sweep decisions [] items h.length_eq.symm (by simp)
      (isMark_of_joined hjoined hseparated hcommas) hseparated.2
      (h.softJoined hshaped hspaced hjoined)
    exact joined_of_tight (hlike.isSoft hsoft) htight hclosed

end Item

/-! ### Lists of statements

Between two statements stands a `;` or trivia that sets them apart. When a statement goes, what is
left of the trivia still does so, or the statement in front ends in a `;`. -/

namespace Statement

/-- The statement is joined in front of soft text, and in front of everything if it ends with a
`;`. -/
def Tight (s : Statement) : Prop :=
  SoftJoined s.tokens ∧ (s.endsSolid = true → ∀ rest, Joined s.tokens rest)

@[simp] theorem endsSolid_withLeading (s : Statement) (leading : String) :
    (s.withLeading leading).endsSolid = s.endsSolid := by
  cases s <;> rfl

/-- What precedes a statement has no part in how its tokens end. -/
theorem Tight.withLeading {s : Statement} (h : s.Tight) (leading : String) :
    (s.withLeading leading).Tight := by
  refine ⟨fun rest hrest => joined_withLeading (h.1 rest hrest) leading, ?_⟩
  intro hends rest
  rw [endsSolid_withLeading] at hends
  exact joined_withLeading (h.2 hends rest) leading

/-- A statement that is set apart is soft text for what precedes it: its trivia opens with something
that ends any token. -/
theorem isSoft_spell_of_setsApart {s : Statement} (h : SetsApart s.leading.toList)
    (tokens : List Token) (rest : List Char) : IsSoft (spell (s.tokens ++ tokens) rest) := by
  obtain ⟨more, htokens, -⟩ := s.exists_tokens
  rw [htokens, List.cons_append, spell_cons]
  exact (h.append _).2

/-- Tight statements that are set apart from each other are joined, in front of a trailer that
leaves soft text soft. -/
theorem joined_of_tight {trailer : String} {rest : List Char}
    (hrest : IsSoft trailer.toList → IsSoft rest) : ∀ {statements : List Statement} {solid : Bool},
      listApart solid statements trailer = true → (∀ s ∈ statements, s.Tight) →
        Joined (listTokens statements) rest
  | [], _, _, _ => by
      rw [listTokens]
      trivial
  | s :: more, solid, hapart, htight => by
      obtain ⟨hs, hmore⟩ := List.forall_mem_cons.1 htight
      simp only [listApart, Bool.and_eq_true] at hapart
      have hrec := joined_of_tight hrest hapart.2 hmore
      rw [listTokens, joined_append]
      refine ⟨?_, hrec⟩
      by_cases hends : s.endsSolid = true
      · exact hs.2 hends _
      · rw [Bool.not_eq_true] at hends
        refine hs.1 _ ?_
        cases more with
        | nil =>
            have htrailer := hapart.2
            simp only [listApart, hends, Bool.false_or, decide_eq_true_eq] at htrailer
            rw [listTokens, spell_nil]
            exact hrest htrailer
        | cons next more =>
            have hnext := hapart.2
            simp only [listApart, hends, Bool.false_or, Bool.and_eq_true, decide_eq_true_eq] at hnext
            rw [listTokens]
            exact isSoft_spell_of_setsApart hnext.1 _ rest

/-- Where an entry is handed on, what follows it is as well set apart as it was. This is what
`SetsApart.repair` says of the trivia, at the place of the next statement or at the end of the
list. -/
theorem listApart_handOn {solid isFirst : Bool} {removed : Statement} {following : List Statement}
    {trailer : String} (h : listApart solid (removed :: following) trailer = true) :
    listApart solid (handOn isFirst removed following trailer).1
      (handOn isFirst removed following trailer).2 = true := by
  simp only [listApart, Bool.and_eq_true, Bool.or_eq_true, decide_eq_true_eq] at h
  obtain ⟨hremoved, hfollowing⟩ := h
  have hstart : (isFirst && removed.leading.toList.isEmpty) = true → removed.leading.toList = [] := by
    intro hstart
    exact List.isEmpty_iff.1 (Bool.and_eq_true_iff.1 hstart).2
  cases following with
  | nil =>
      simp only [handOn, listApart, Bool.or_eq_true, decide_eq_true_eq, String.toList_ofList]
      exact hremoved.imp_right fun hremoved => (hremoved.repair _ hstart true).2
  | cons next rest =>
      simp only [listApart, Bool.and_eq_true] at hfollowing
      simp only [handOn, listApart, Bool.and_eq_true, Bool.or_eq_true, decide_eq_true_eq,
        endsSolid_withLeading, leading_withLeading, String.toList_ofList]
      exact ⟨hremoved.imp_right fun hremoved => hremoved.repair _ hstart false, hfollowing.2⟩

/-- A statement that stays ends as it did. -/
def Matched (statements : List Statement) (decisions : List (Option Statement)) : Prop :=
  List.Forall₂ (fun s decision => ∀ s' ∈ decision, s'.endsSolid = s.endsSolid) statements decisions

theorem Matched.handOn {isFirst : Bool} {removed : Statement} {following : List Statement}
    {decisions : List (Option Statement)} (trailer : String) (h : Matched following decisions) :
    Matched (Statement.handOn isFirst removed following trailer).1 decisions :=
  forall₂_handOn (fun s leading decision hnext s' hs' => by
    rw [endsSolid_withLeading]
    exact hnext s' hs') isFirst removed trailer h

/-- Statements stay set apart as entries go one by one, since the decisions keep how each statement
ends. -/
theorem listApart_sweep : ∀ (decisions : List (Option Statement)) (isFirst solid : Bool)
    (statements : List Statement) (trailer : String), Matched statements decisions →
      listApart solid statements trailer = true →
      listApart solid (sweep isFirst decisions statements trailer).1
        (sweep isFirst decisions statements trailer).2 = true
  | [], isFirst, solid, [], trailer, _, h => by
      rw [sweep_nil]
      exact h
  | some decided :: decisions, isFirst, solid, statement :: rest, trailer, .cons hends hrest, h => by
      rw [sweep_some]
      simp only [listApart, Bool.and_eq_true, endsSolid_withLeading, leading_withLeading] at h ⊢
      refine ⟨h.1, ?_⟩
      rw [hends decided rfl]
      exact listApart_sweep decisions false _ rest trailer hrest h.2
  | none :: decisions, isFirst, solid, statement :: rest, trailer, .cons _ hrest, h => by
      rw [sweep_none]
      exact listApart_sweep decisions isFirst solid _ _ (Matched.handOn trailer hrest)
        (listApart_handOn h)

/-- The filter of a `plugins` block takes statements out before the decisions are applied. It keeps
the rest set apart in the same way, and the decisions fit it. -/
theorem listApart_sift (keep : Statement → Bool) : ∀ (decisions : List (Option Statement))
    (isFirst solid : Bool) (statements : List Statement) (trailer : String),
      Matched statements decisions → listApart solid statements trailer = true →
      Matched (sift keep isFirst decisions statements trailer).2.1
        (sift keep isFirst decisions statements trailer).1 ∧
      listApart solid (sift keep isFirst decisions statements trailer).2.1
        (sift keep isFirst decisions statements trailer).2.2 = true
  | [], isFirst, solid, [], trailer, hmatched, h => ⟨hmatched, h⟩
  | decision :: decisions, isFirst, solid, statement :: rest, trailer, .cons hends hrest, h => by
      by_cases hkeep : keep statement = true
      · simp only [listApart, Bool.and_eq_true] at h
        obtain ⟨hmatched, hapart⟩ := listApart_sift keep decisions false _ rest trailer hrest h.2
        rw [sift_keep hkeep]
        refine ⟨.cons hends hmatched, ?_⟩
        simp only [listApart, Bool.and_eq_true]
        exact ⟨h.1, hapart⟩
      · rw [sift_drop hkeep]
        exact listApart_sift keep decisions isFirst solid _ _ (Matched.handOn trailer hrest)
          (listApart_handOn h)

/-- `new` can take the place of `old`, which leaves room for removals: it ends in the same way, and
its tokens are joined as long as something soft follows. -/
structure Replaces (old new : Statement) : Prop where
  ends : new.endsSolid = old.endsSolid
  tight (before : List Char) (hshaped : old.Shaped) (hspaced : old.spaced before = true)
    (hjoined : Joined old.tokens before) : new.Tight

/-- The decisions can take the places of the statements they were made about. -/
def Replaced (statements : List Statement) (decisions : List (Option Statement)) : Prop :=
  List.Forall₂ (fun s decision => ∀ s' ∈ decision, s.Replaces s') statements decisions

theorem Replaced.matched {statements : List Statement} {decisions : List (Option Statement)}
    (h : Replaced statements decisions) : Matched statements decisions :=
  List.Forall₂.imp (fun _ _ hreplaces s' hs' => (hreplaces s' hs').ends) h

theorem Replaced.tight {statements : List Statement} {decisions : List (Option Statement)}
    (h : Replaced statements decisions) {rest : List Char} (hshaped : ListShaped statements)
    (hspaced : listSpaced statements rest = true) (hjoined : Joined (listTokens statements) rest) :
    ∀ s ∈ decisions.filterMap id, s.Tight := by
  induction h with
  | nil => simp
  | @cons s decision statements decisions hreplaces _ ih =>
      simp only [ListShaped] at hshaped
      simp only [listSpaced, Bool.and_eq_true] at hspaced
      rw [listTokens, joined_append] at hjoined
      have hrest := ih hshaped.2 hspaced.2 hjoined.2
      cases decision with
      | none => exact hrest
      | some s' =>
          refine List.forall_mem_cons.2 ⟨?_, hrest⟩
          exact (hreplaces s' rfl).tight _ hshaped.1 hspaced.1 hjoined.1

/-- The statements that stay are the decided ones, with other trivia in front, so they are tight if
these are. -/
theorem tight_sweep {decisions : List (Option Statement)} (isFirst : Bool)
    {statements : List Statement} (trailer : String) (hlength : decisions.length = statements.length)
    (h : ∀ s ∈ decisions.filterMap id, s.Tight) :
    ∀ s ∈ (sweep isFirst decisions statements trailer).1, s.Tight := by
  exact forall_mem_sweep (fun _ leading hs => hs.withLeading leading) isFirst trailer hlength h

end Statement

end BuildPrune
