import NescTree.Proofs.Notation.Concatenation
import NescTree.Proofs.Notation.ViablePrefix
import NescTree.Proofs.Render.Parts
import Mathlib.Data.List.Forall2
import Mathlib.Data.List.Induction

/-!
# The places of nodes

Every node that is read is made from one token, whose place it takes: the name of the kind
for a list, and the word or the string itself for a child without parentheses.  The nodes
are made from left to right, a list before its children, although a list becomes a node
only when it is closed.  So the places of nodes, each before those below it, go forward in
the text.
-/

namespace NescTree

def Span.position (span : Span) : Notation.Position := ⟨span.row, span.col⟩

namespace Notation

def textAt (text : String) (span : Span) : String :=
  String.ofList ((sourceFrom text.toList span.row span.col).take span.length)

def Position.Before (first second : Position) : Prop :=
  first.row < second.row ∨ first.row = second.row ∧ first.col < second.col

section Order

theorem Position.Before.trans {first second third : Position} (hfirst : first.Before second)
    (hsecond : second.Before third) : first.Before third := by
  simp only [Position.Before] at *
  omega

theorem Position.before_step (position : Position) (char : Char) :
    position.Before (position.step char) := by
  rw [Position.step]
  split <;> simp [Position.Before]

theorem Position.before_after (position : Position) {chars : List Char} (hchars : chars ≠ []) :
    position.Before (position.after chars) := by
  induction chars generalizing position with
  | nil => exact absurd rfl hchars
  | cons char chars ih =>
    rw [Position.after_cons]
    cases chars with
    | nil => exact position.before_step char
    | cons next chars => exact (position.before_step char).trans (ih _ (List.cons_ne_nil _ _))

/-- The tokens among some pieces stand at or after the start of the pieces. -/
theorem position_of_mem_tokensFrom {position : Position} {parts : List Piece} {token : Token}
    (hparts : Separated parts) (hmem : token ∈ tokensFrom position parts) :
    position = token.span.position ∨ position.Before token.span.position := by
  obtain ⟨before, type, chars, rest, rfl, -, -⟩ := exists_stretch_of_mem_tokensFrom hparts hmem
  by_cases hbefore : before = []
  · subst hbefore
    exact .inl rfl
  · exact .inr (position.before_after hbefore)

/-- Tokens stand in the order in which they are read. -/
theorem pairwise_tokensFrom {position : Position} {parts : List Piece} (hparts : Separated parts) :
    (tokensFrom position parts).Pairwise fun first second =>
      first.span.position.Before second.span.position := by
  induction parts generalizing position with
  | nil => exact .nil
  | cons piece parts ih =>
    obtain ⟨hends, hrest⟩ := hparts
    rw [tokensFrom]
    cases piece.tokenType? with
    | none => exact ih hrest
    | some type =>
      refine List.pairwise_cons.2 ⟨?_, ih hrest⟩
      intro later hlater
      have hafter := position.before_after (chars_ne_nil_of_endsAt hends)
      obtain heq | hbefore := position_of_mem_tokensFrom hrest hlater
      · exact heq ▸ hafter
      · exact hafter.trans hbefore

end Order

/-- A token, with the tokens in front of it. -/
structure Occurrence where
  before : List Token
  token : Token

namespace Occurrence

/-- Whether a token names a kind: as the head of a list, or as a word of its own. -/
def NamesKind (occurrence : Occurrence) : Prop :=
  FollowsOpening occurrence.before ∨
    occurrence.token.type = .word ∧ (Kind.ofName? occurrence.token.value).isSome = true

/-- Whether a node has its place from a token, which is the name of its kind or else its
text. -/
structure Makes (occurrence : Occurrence) (node : Tree) : Prop where
  span_eq : node.span = some occurrence.token.span
  kind_eq : occurrence.NamesKind → occurrence.token.value = node.kind.name
  text_eq : ¬ occurrence.NamesKind → node.text = some occurrence.token.value

/-- Whether a token is the head of a list that is still open. -/
structure Heads (occurrence : Occurrence) (frame : Frame) : Prop where
  follows : FollowsOpening occurrence.before
  span_eq : frame.span = occurrence.token.span
  kind_eq : occurrence.token.value = frame.kind.name

variable {occurrence : Occurrence}

theorem Heads.makes {frame : Frame} (hheads : occurrence.Heads frame) :
    occurrence.Makes frame.closed where
  span_eq := congrArg some hheads.span_eq
  kind_eq _ := hheads.kind_eq
  text_eq hnot := absurd (.inl hheads.follows) hnot

/-- A word that is not the head of a list makes the node that it denotes. -/
theorem makes_of_wordTree {tree : Tree} (hnot : ¬ FollowsOpening occurrence.before)
    (htype : occurrence.token.type = .word)
    (htree : wordTree occurrence.token.value occurrence.token.span = .ok tree) :
    occurrence.Makes tree ∧ tree.children = [] := by
  rw [wordTree] at htree
  cases hname : Kind.ofName? occurrence.token.value with
  | some kind =>
    rw [hname, Except.ok.injEq] at htree
    subst htree
    refine ⟨⟨rfl, fun _ => (Kind.name_of_ofName? hname).symm, fun hno => ?_⟩, rfl⟩
    exact absurd (.inr ⟨htype, by simp [hname]⟩) hno
  | none =>
    rw [hname] at htree
    obtain ⟨constant, -, rfl⟩ := map_eq_ok_iff.1 htree
    refine ⟨⟨rfl, fun hnames => ?_, fun _ => rfl⟩, rfl⟩
    obtain hfollows | ⟨-, hsome⟩ := hnames
    · exact absurd hfollows hnot
    · simp [hname] at hsome

theorem makes_stringLiteral (hnot : ¬ FollowsOpening occurrence.before)
    (htype : occurrence.token.type = .string) :
    occurrence.Makes (.leaf .stringLiteral occurrence.token.value occurrence.token.span) := by
  refine ⟨rfl, fun hnames => ?_, fun _ => rfl⟩
  obtain hfollows | ⟨hword, -⟩ := hnames
  · exact absurd hfollows hnot
  · rw [htype] at hword
    cases hword

end Occurrence

/-- Some tokens make the nodes of some trees, each before those below it. -/
def MakeAll (makers : List Occurrence) (trees : List Tree) : Prop :=
  List.Forall₂ Occurrence.Makes makers (Tree.walkAll trees)

/-- Some tokens make the nodes of the lists that are open, innermost first, with their
children so far. -/
inductive MakeOpen : List Occurrence → List Frame → Prop
  | nil : MakeOpen [] []
  | cons {outerMakers makers : List Occurrence} {head : Occurrence} {frame : Frame}
      {outer : List Frame} (houter : MakeOpen outerMakers outer) (hhead : head.Heads frame)
      (hchildren : MakeAll makers frame.reversed.reverse) :
      MakeOpen (outerMakers ++ head :: makers) (frame :: outer)

theorem MakeAll.nil : MakeAll [] [] := List.Forall₂.nil

theorem MakeAll.append {first second : List Occurrence} {trees others : List Tree}
    (hfirst : MakeAll first trees) (hsecond : MakeAll second others) :
    MakeAll (first ++ second) (trees ++ others) := by
  rw [MakeAll, Tree.walkAll_eq_flatMap, List.flatMap_append, ← Tree.walkAll_eq_flatMap,
    ← Tree.walkAll_eq_flatMap]
  exact List.rel_append hfirst hsecond

theorem MakeAll.closed {makers : List Occurrence} {head : Occurrence} {frame : Frame}
    (hhead : head.Heads frame) (hchildren : MakeAll makers frame.reversed.reverse) :
    MakeAll (head :: makers) [frame.closed] := by
  simpa [MakeAll, Tree.walkAll, Tree.walk, Frame.closed] using ⟨hhead.makes, hchildren⟩

theorem MakeAll.leaf {maker : Occurrence} {tree : Tree} (hmakes : maker.Makes tree)
    (hchildren : tree.children = []) : MakeAll [maker] [tree] := by
  obtain ⟨kind, label, span, children⟩ := tree
  obtain rfl : children = [] := hchildren
  simpa [MakeAll, Tree.walkAll, Tree.walk] using hmakes

/-- Every node has a token that makes it. -/
theorem MakeAll.exists_maker {makers : List Occurrence} {trees : List Tree} {node : Tree}
    (hmakers : MakeAll makers trees) (hnode : node ∈ Tree.walkAll trees) :
    ∃ maker ∈ makers, maker.Makes node := by
  rw [MakeAll] at hmakers
  generalize Tree.walkAll trees = nodes at hmakers hnode
  induction hmakers with
  | nil => simp at hnode
  | @cons maker other makers nodes hmakes _ ih =>
    obtain rfl | hmem := List.mem_cons.1 hnode
    · exact ⟨maker, List.mem_cons_self .., hmakes⟩
    · obtain ⟨found, hfound, hother⟩ := ih hmem
      exact ⟨found, List.mem_cons_of_mem _ hfound, hother⟩

theorem MakeAll.map_span {makers : List Occurrence} {trees : List Tree}
    (hmakers : MakeAll makers trees) :
    (Tree.walkAll trees).map Tree.span = makers.map fun maker => some maker.token.span := by
  rw [MakeAll] at hmakers
  generalize Tree.walkAll trees = nodes at hmakers
  induction hmakers with
  | nil => rfl
  | cons hmakes _ ih => rw [List.map_cons, List.map_cons, hmakes.span_eq, ih]

section Open

variable {makers : List Occurrence} {frame : Frame} {outer : List Frame}

/-- A child joins the innermost open list. -/
theorem MakeOpen.withChild (hopen : MakeOpen makers (frame :: outer)) {more : List Occurrence}
    {child : Tree} (hchild : MakeAll more [child]) :
    MakeOpen (makers ++ more) (frame.withChild child :: outer) := by
  cases hopen with
  | @cons outerMakers inner head _ _ houter hhead hchildren =>
    rw [List.append_assoc, List.cons_append]
    refine .cons houter ⟨hhead.follows, hhead.span_eq, hhead.kind_eq⟩ ?_
    simpa [Frame.withChild] using hchildren.append hchild

theorem MakeOpen.withText (hopen : MakeOpen makers (frame :: outer)) (label : Option String)
    (fresh : Bool) : MakeOpen makers ({ frame with label, fresh } :: outer) := by
  cases hopen with
  | cons houter hhead hchildren =>
    exact .cons houter ⟨hhead.follows, hhead.span_eq, hhead.kind_eq⟩ hchildren

end Open

/-- Some tokens make what has been read so far. -/
def Situation.MadeBy (makers : List Occurrence) (situation : Situation) : Prop :=
  ∃ done rest, makers = done ++ rest ∧ MakeAll done situation.reversed.reverse ∧
    MakeOpen rest situation.frames

section Reading

variable {source : Source} {situation next last : Situation} {token : Token}
  {tokens : List Token} {makers : List Occurrence}

/-- Closing a list makes nothing new, and moves nothing. -/
theorem madeBy_close {frame : Frame} {outer : List Frame} {reversed : List Tree}
    (hmade : (Situation.inside frame outer reversed).MadeBy makers) :
    (Situation.close frame outer reversed).MadeBy makers := by
  obtain ⟨done, rest, rfl, hdone, hopen⟩ := hmade
  cases hopen with
  | @cons outerMakers inner head _ _ houter hhead hchildren =>
    have hclosed := MakeAll.closed hhead hchildren
    cases outer with
    | nil =>
      cases houter
      refine ⟨done ++ head :: inner, [], by simp, ?_, .nil⟩
      simpa [Situation.close, Situation.reversed] using hdone.append hclosed
    | cons parent above => exact ⟨done, _, rfl, hdone, houter.withChild hclosed⟩

/-- A token makes one node at most. -/
theorem madeBy_step (hmade : situation.MadeBy makers)
    (hopened : situation.isOpened = true ↔ FollowsOpening tokens)
    (hstep : situation.step source token = .ok next) :
    next.MadeBy makers ∨ next.MadeBy (makers ++ [⟨tokens, token⟩]) := by
  cases situation with
  | between reversed =>
    cases htype : token.type <;> simp [Situation.step, Situation.refusal?, Situation.take, htype]
      at hstep
    subst hstep
    exact .inl hmade
  | opened outer reversed =>
    cases htype : token.type <;> simp [Situation.step, Situation.refusal?, Situation.take, htype]
      at hstep
    cases hname : Kind.ofName? token.value with
    | none => simp [hname] at hstep
    | some kind =>
      obtain rfl : .inside (.opened kind token.span) outer reversed = next := by
        simpa [hname] using hstep
      obtain ⟨done, rest, rfl, hdone, hopen⟩ := hmade
      refine .inr ⟨done, rest ++ [⟨tokens, token⟩], by simp, hdone, .cons hopen ⟨?_, rfl, ?_⟩ .nil⟩
      · exact hopened.1 rfl
      · exact (Kind.name_of_ofName? hname).symm
  | inside frame outer reversed =>
    have hnot : ¬ FollowsOpening tokens := fun hfollows => by cases hopened.2 hfollows
    have hchild : ∀ child, Occurrence.Makes ⟨tokens, token⟩ child → child.children = [] →
        (Situation.inside (frame.withChild child) outer reversed).MadeBy
          (makers ++ [⟨tokens, token⟩]) := by
      intro child hmakes hchildren
      obtain ⟨done, rest, rfl, hdone, hopen⟩ := hmade
      exact ⟨done, _, List.append_assoc .., hdone, hopen.withChild (.leaf hmakes hchildren)⟩
    cases htype : token.type with
    | opening =>
      obtain rfl : .opened (frame :: outer) reversed = next := by
        simpa [Situation.step, Situation.refusal?, Situation.take, htype] using hstep
      exact .inl hmade
    | closing =>
      obtain rfl : Situation.close frame outer reversed = next := by
        simpa [Situation.step, Situation.refusal?, Situation.take, htype] using hstep
      exact .inl (madeBy_close hmade)
    | word =>
      simp only [Situation.step, Situation.refusal?, Situation.take, htype] at hstep
      obtain ⟨child, hword, rfl⟩ := map_eq_ok_iff.1 hstep
      obtain ⟨hmakes, hchildren⟩ :=
        @Occurrence.makes_of_wordTree ⟨tokens, token⟩ child hnot htype hword
      exact .inr (hchild child hmakes hchildren)
    | string =>
      simp only [Situation.step, Situation.refusal?, Situation.take, htype] at hstep
      by_cases hfresh : frame.fresh = true
      · rw [if_pos hfresh] at hstep
        obtain ⟨text, -, rfl⟩ := map_eq_ok_iff.1 hstep
        obtain ⟨done, rest, rfl, hdone, hopen⟩ := hmade
        exact .inl ⟨done, rest, rfl, hdone, hopen.withText _ _⟩
      · rw [if_neg hfresh, Except.ok.injEq] at hstep
        subst hstep
        exact .inr (hchild _ (Occurrence.makes_stringLiteral hnot htype) rfl)
    | finish => simp [Situation.step, Situation.refusal?, htype] at hstep

/-- What is read from some tokens is made by some of them, in their order. -/
theorem exists_madeBy_of_takeAll
    (htake : (Situation.between []).takeAll source tokens = .ok last) :
    ∃ makers : List Occurrence, last.MadeBy makers ∧
      (makers.map Occurrence.token).Sublist tokens ∧
      ∀ maker ∈ makers, ∃ after, tokens = maker.before ++ maker.token :: after := by
  induction tokens using List.reverseRecOn generalizing last with
  | nil =>
    cases htake
    exact ⟨[], ⟨[], [], rfl, .nil, .nil⟩, .slnil, by simp⟩
  | append_singleton tokens token ih =>
    rw [Situation.takeAll_append] at htake
    obtain ⟨middle, hfront, hlast⟩ := bind_eq_ok_iff.1 htake
    rw [Situation.takeAll_cons] at hlast
    obtain ⟨following, hstep, hnil⟩ := bind_eq_ok_iff.1 hlast
    cases hnil
    obtain ⟨makers, hmade, hsublist, hplaces⟩ := ih hfront
    have hlonger : ∀ maker ∈ makers, ∃ after,
        tokens ++ [token] = maker.before ++ maker.token :: after := by
      intro maker hmaker
      obtain ⟨after, htokens⟩ := hplaces maker hmaker
      exact ⟨after ++ [token], by rw [htokens, List.append_assoc, List.cons_append]⟩
    obtain hsame | hmore := madeBy_step hmade (Situation.isOpened_takeAll hfront) hstep
    · exact ⟨makers, hsame, hsublist.trans (List.sublist_append_left ..), hlonger⟩
    · refine ⟨_, hmore, by simpa using hsublist.append (List.Sublist.refl [token]), ?_⟩
      simpa [or_imp, forall_and] using hlonger

end Reading

/-- What stands in a text at the place of one of its tokens is the token, in full length. -/
theorem textAt_of_mem_tokensFrom {text : String} {token : Token}
    (hmem : token ∈ tokensFrom .start (pieces text.toList)) :
    textAt text token.span = token.value ∧ token.span.length = token.value.length := by
  obtain ⟨before, type, chars, rest, rfl, hchars, htext⟩ := exists_tokenAfter_of_mem hmem
  have hplaced := (start_and_placed_tokenAfter htext hchars type).2
  exact ⟨by rw [textAt, ← hplaced.value_eq, String.ofList_toList], hplaced.length_eq⟩

/-- Every node that is read has a place.  What stands there is the name of its kind if the
node was written as a list or as a word that names a kind, and its text otherwise.  The places
of the nodes, each before those below it, go forward in the text. -/
theorem nodes_placed_at_their_tokens {name : Option String} {text : String} {trees : List Tree}
    (hread : readTrees name text = .ok trees) :
    (∀ node ∈ Tree.walkAll trees, ∃ maker : Occurrence, ∃ after span,
      properTokens name text = maker.before ++ maker.token :: after ∧
      span = maker.token.span ∧ node.span = some span ∧
      (textAt text span).length = span.length ∧
      (maker.NamesKind → textAt text span = node.kind.name) ∧
      (¬ maker.NamesKind → node.text = some (textAt text span))) ∧
    ∃ spans : List Span, (Tree.walkAll trees).map Tree.span = spans.map some ∧
      spans.Pairwise fun first second => first.position.Before second.position := by
  have hclosed := any_isUnclosed_of_readTrees hread
  have htake := takeAll_of_readTrees hclosed hread
  have hfault : (tokenize name text).fault? = none := by
    rw [tokenize_of_closed name rfl hclosed]
  obtain ⟨makers, ⟨done, rest, rfl, hdone, hopen⟩, hsublist, hplaces⟩ :=
    exists_madeBy_of_takeAll htake
  cases hopen
  rw [Situation.reversed, List.reverse_reverse] at hdone
  rw [List.append_nil] at hsublist hplaces
  constructor
  · intro node hnode
    obtain ⟨maker, hmaker, hmakes⟩ := hdone.exists_maker hnode
    obtain ⟨after, htokens⟩ := hplaces maker hmaker
    obtain ⟨htext, hlength⟩ :=
      @textAt_of_mem_tokensFrom text maker.token (by rw [htokens]; simp)
    refine ⟨maker, after, maker.token.span, ?_, rfl, hmakes.span_eq, ?_, ?_, ?_⟩
    · rw [properTokens_of_fault? hfault, htokens]
    · rw [htext, hlength]
    · exact fun hnames => htext.trans (hmakes.kind_eq hnames)
    · exact fun hnot => htext.symm ▸ hmakes.text_eq hnot
  · refine ⟨done.map fun maker => maker.token.span, ?_, ?_⟩
    · rw [hdone.map_span, List.map_map]
      rfl
    · have hordered := (pairwise_tokensFrom (separated_pieces text.toList)).sublist hsublist
      rw [List.pairwise_map] at hordered ⊢
      exact hordered

/-- A list with a text, and in it a word that names a kind and a string on two rows. -/
theorem nodes_placed_at_their_tokens_two_rows :
    readTrees none "(FILE \"x\" NULL\n\"y\nz\")" = .ok
        [.node .file (some "x") (some ⟨1, 2, 4⟩)
          [.node .null none (some ⟨1, 11, 4⟩) [],
            .leaf .stringLiteral "\"y\nz\"" (some ⟨2, 1, 5⟩)]] ∧
      ∀ node ∈ Tree.walkAll [.node .file (some "x") (some ⟨1, 2, 4⟩)
          [.node .null none (some ⟨1, 11, 4⟩) [],
            .leaf .stringLiteral "\"y\nz\"" (some ⟨2, 1, 5⟩)]],
        ∃ span, node.span = some span ∧
          (textAt "(FILE \"x\" NULL\n\"y\nz\")" span = node.kind.name ∨
            node.text = some (textAt "(FILE \"x\" NULL\n\"y\nz\")" span)) := by
  have hread : readTrees none "(FILE \"x\" NULL\n\"y\nz\")" = .ok
      [.node .file (some "x") (some ⟨1, 2, 4⟩)
        [.node .null none (some ⟨1, 11, 4⟩) [],
          .leaf .stringLiteral "\"y\nz\"" (some ⟨2, 1, 5⟩)]] := by
    have htokens : tokensFrom .start (pieces "(FILE \"x\" NULL\n\"y\nz\")".toList) =
        [⟨.opening, "(", ⟨1, 1, 1⟩⟩, ⟨.word, "FILE", ⟨1, 2, 4⟩⟩, ⟨.string, "\"x\"", ⟨1, 7, 3⟩⟩,
          ⟨.word, "NULL", ⟨1, 11, 4⟩⟩, ⟨.string, "\"y\nz\"", ⟨2, 1, 5⟩⟩,
          ⟨.closing, ")", ⟨3, 3, 1⟩⟩] := by
      decide +kernel
    rw [readTrees_of_closed none rfl (by decide +kernel), htokens]
    rfl
  refine ⟨hread, fun node hnode => ?_⟩
  obtain ⟨maker, -, span, -, -, hspan, -, hkind, htext⟩ :=
    (nodes_placed_at_their_tokens hread).1 node hnode
  by_cases hnames : maker.NamesKind
  · exact ⟨span, hspan, .inl (hkind hnames)⟩
  · exact ⟨span, hspan, .inr (htext hnames)⟩

end Notation

end NescTree
