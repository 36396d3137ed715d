import NescTree.Proofs.Notation.Grammar
import NescTree.Proofs.Notation.Lexing

/-!
# Texts one below the other

A text may end in the middle of a line, in a word, in blanks or in a comment without a
line end.  A line feed after it ends whatever was left open, so a text that stands below
it is cut and read as it would be alone, only with all places further down.
-/

namespace NescTree

section Lowering

def Span.lowered (rows : Nat) (span : Span) : Span := { span with row := span.row + rows }

/-- A place some rows further down, in another source. -/
def Location.lowered (source : Source) (rows : Nat) (location : Location) : Location :=
  ⟨source, location.row + rows, location.col, location.length⟩

/-- A syntax fault some rows further down, in another source. -/
def Fault.lowered (source : Source) (rows : Nat) : Fault → Fault
  | .malformed cause location? => .malformed cause (location?.map (Location.lowered source rows))
  | fault => fault

mutual

def Tree.lowered (rows : Nat) : Tree → Tree
  | .node kind label span children =>
    .node kind label (span.map (Span.lowered rows)) (allLowered rows children)

def Tree.allLowered (rows : Nat) : List Tree → List Tree
  | [] => []
  | tree :: trees => Tree.lowered rows tree :: Tree.allLowered rows trees

end

theorem Tree.allLowered_eq_map (rows : Nat) (trees : List Tree) :
    Tree.allLowered rows trees = trees.map (Tree.lowered rows) := by
  induction trees with
  | nil => rfl
  | cons tree trees ih => rw [Tree.allLowered, ih, List.map_cons]

theorem Tree.lowered_node (rows : Nat) (kind : Kind) (label : Option String)
    (span : Option Span) (children : List Tree) :
    Tree.lowered rows (.node kind label span children) =
      .node kind label (span.map (Span.lowered rows)) (children.map (Tree.lowered rows)) := by
  rw [Tree.lowered, Tree.allLowered_eq_map]

end Lowering

namespace Notation

section Positions

def Position.lowered (rows : Nat) (position : Position) : Position :=
  ⟨position.row + rows, position.col⟩

def Token.lowered (rows : Nat) (token : Token) : Token :=
  { token with span := token.span.lowered rows }

variable {rows : Nat} {position : Position}

theorem Position.step_lowered (char : Char) :
    (position.lowered rows).step char = (position.step char).lowered rows := by
  by_cases hfeed : char = '\n'
  · simp [step, lowered, hfeed, Nat.add_right_comm]
  · simp [step, lowered, hfeed]

theorem Position.after_lowered (chars : List Char) :
    (position.lowered rows).after chars = (position.after chars).lowered rows := by
  induction chars generalizing position with
  | nil => rfl
  | cons char chars ih => rw [after_cons, step_lowered, ih, after_cons]

/-- A text starts on a new row below another one. -/
theorem Position.after_append_lineFeed (chars : List Char) :
    Position.start.after (chars ++ ['\n']) = Position.start.lowered (chars.count '\n' + 1) := by
  have hrow := Position.row_after Position.start chars
  calc Position.start.after (chars ++ ['\n'])
      = (Position.start.after chars).step '\n' := Position.after_append _ _ _
    _ = ⟨(Position.start.after chars).row + 1, 1⟩ := rfl
    _ = Position.start.lowered (chars.count '\n' + 1) := by rw [hrow]; rfl

theorem tokensFrom_lowered (parts : List Piece) :
    tokensFrom (position.lowered rows) parts =
      (tokensFrom position parts).map (Token.lowered rows) := by
  induction parts generalizing position with
  | nil => rfl
  | cons piece parts ih =>
    rw [tokensFrom, tokensFrom, Position.after_lowered, ih]
    cases piece.tokenType? with
    | none => rfl
    | some type => rfl

theorem tokensFrom_append (first second : List Piece) :
    tokensFrom position (first ++ second) =
      tokensFrom position first ++
        tokensFrom (position.after (first.flatMap Piece.chars)) second := by
  induction first generalizing position with
  | nil => rfl
  | cons piece first ih =>
    rw [List.cons_append, tokensFrom, tokensFrom, ih, List.flatMap_cons, Position.after_append]
    cases piece.tokenType? with
    | none => rfl
    | some type => rfl

end Positions

section Seam

/-- A line feed after the rest of a text does not move the end of a piece, unless the piece
is a comment that goes to the end of the text. -/
theorem endsAt_lineFeed_or_openComment {piece : Piece} {rest : List Char}
    (hends : piece.EndsAt rest) (hclosed : piece.isUnclosed = false) :
    (∀ more, piece.EndsAt (rest ++ '\n' :: more)) ∨
      ∃ body, piece = .comment body ∧ rest = [] ∧ ∀ char ∈ body, ¬ IsLineEnd char := by
  cases piece with
  | gap char => exact .inl fun _ => hends
  | opening => exact .inl fun _ => trivial
  | closing => exact .inl fun _ => trivial
  | comment body =>
    rcases comment_cases hends with ⟨inner, last, rfl, hinner, hlast⟩ | ⟨rfl, hbody⟩
    · left
      intro more
      have hcut := cutComment_closed hinner hlast (rest ++ '\n' :: more)
      simpa [Piece.EndsAt] using hcut
    · exact .inr ⟨body, rfl, rfl, hbody⟩
  | word chars =>
    left
    intro more
    refine ⟨hends.1, ?_⟩
    cases rest with
    | nil =>
      intro char hchar
      obtain rfl : '\n' = char := by simpa using hchar
      decide
    | cons first rest => simpa using hends.2
  | string body =>
    left
    intro more
    have hcut := cutString_append_right hends ('\n' :: more)
    rw [List.append_assoc] at hcut
    exact hcut
  | unclosed body => cases hclosed

/-- A comment that goes to the end of a text ends at a line feed after it. -/
theorem endsAt_comment_lineFeed {body : List Char} (hbody : ∀ char ∈ body, ¬ IsLineEnd char)
    (more : List Char) : (Piece.comment (body ++ ['\n'])).EndsAt more := by
  have hcut := cutComment_closed hbody (.inr rfl) more
  simpa [Piece.EndsAt] using hcut

/-- With a line feed after them, the pieces of a text without an open string have the same
tokens among them, whatever follows. -/
theorem exists_pieces_lineFeed {parts : List Piece} (hparts : Separated parts)
    (hclosed : parts.any Piece.isUnclosed = false) {below : List Piece}
    (hbelow : Separated below) :
    ∃ above, Separated (above ++ below) ∧
      above.flatMap Piece.chars = parts.flatMap Piece.chars ++ ['\n'] ∧
      above.any Piece.isUnclosed = false ∧
      ∀ position, tokensFrom position above = tokensFrom position parts := by
  induction parts with
  | nil =>
    have hgap : (Piece.gap '\n').EndsAt (below.flatMap Piece.chars) := rfl
    exact ⟨[.gap '\n'], ⟨hgap, hbelow⟩, rfl, rfl, fun _ => rfl⟩
  | cons piece parts ih =>
    obtain ⟨hends, hrest⟩ := hparts
    rw [List.any_cons, Bool.or_eq_false_iff] at hclosed
    rcases endsAt_lineFeed_or_openComment hends hclosed.1 with hmore | ⟨body, rfl, hempty, hbody⟩
    · obtain ⟨above, habove, hchars, hinner, htokens⟩ := ih hrest hclosed.2
      have hnext : piece.EndsAt ((above ++ below).flatMap Piece.chars) := by
        rw [List.flatMap_append, hchars, List.append_assoc]
        exact hmore _
      refine ⟨piece :: above, ⟨hnext, habove⟩, ?_, ?_, ?_⟩
      · rw [List.flatMap_cons, hchars, List.flatMap_cons, List.append_assoc]
      · rw [List.any_cons, hclosed.1, hinner, Bool.or_self]
      · intro position
        rw [tokensFrom, tokensFrom, htokens]
    · obtain rfl := eq_nil_of_flatMap_chars hrest hempty
      refine ⟨[.comment (body ++ ['\n'])], ⟨?_, hbelow⟩, ?_, rfl, fun _ => rfl⟩
      · exact endsAt_comment_lineFeed hbody _
      · simp [Piece.chars]

/-- The pieces of two texts with a line feed between them. -/
theorem exists_pieces_joined {upper : List Char}
    (hclosed : (pieces upper).any Piece.isUnclosed = false) (lower : List Char) :
    ∃ above, pieces (upper ++ '\n' :: lower) = above ++ pieces lower ∧
      above.any Piece.isUnclosed = false ∧
      above.flatMap Piece.chars = upper ++ ['\n'] ∧
      ∀ position, tokensFrom position above = tokensFrom position (pieces upper) := by
  obtain ⟨above, habove, hchars, hinner, htokens⟩ :=
    exists_pieces_lineFeed (separated_pieces upper) hclosed (separated_pieces lower)
  rw [flatMap_chars_pieces] at hchars
  refine ⟨above, ?_, hinner, hchars, htokens⟩
  apply pieces_eq_iff.2
  refine ⟨?_, habove⟩
  rw [List.flatMap_append, hchars, flatMap_chars_pieces, List.append_assoc]
  rfl

/-- The tokens of two texts with a line feed between them. -/
theorem tokensFrom_joined {upper : List Char}
    (hclosed : (pieces upper).any Piece.isUnclosed = false) (lower : List Char) :
    tokensFrom .start (pieces (upper ++ '\n' :: lower)) =
      tokensFrom .start (pieces upper) ++
        (tokensFrom .start (pieces lower)).map (Token.lowered (upper.count '\n' + 1)) := by
  obtain ⟨above, hjoined, -, hchars, htokens⟩ := exists_pieces_joined hclosed lower
  rw [hjoined, tokensFrom_append, htokens, hchars, Position.after_append_lineFeed,
    tokensFrom_lowered]

theorem any_isUnclosed_joined {upper : List Char}
    (hclosed : (pieces upper).any Piece.isUnclosed = false) (lower : List Char) :
    (pieces (upper ++ '\n' :: lower)).any Piece.isUnclosed =
      (pieces lower).any Piece.isUnclosed := by
  obtain ⟨above, hjoined, hinner, -⟩ := exists_pieces_joined hclosed lower
  rw [hjoined, List.any_append, hinner, Bool.false_or]

theorem endSpan_joined (upper lower : List Char) :
    endSpan (upper ++ '\n' :: lower) = (endSpan lower).lowered (upper.count '\n' + 1) := by
  simp only [endSpan, Span.lowered, List.count_append, List.count_cons_self, Span.mk.injEq,
    and_true]
  omega

end Seam

section Reading

def Frame.lowered (rows : Nat) (frame : Frame) : Frame :=
  { frame with
    span := frame.span.lowered rows
    reversed := frame.reversed.map (Tree.lowered rows) }

/-- A situation some rows further down, after trees that were read before. -/
def Situation.lowered (rows : Nat) (earlier : List Tree) : Situation → Situation
  | .between reversed => .between (reversed.map (Tree.lowered rows) ++ earlier)
  | .opened outer reversed =>
    .opened (outer.map (Frame.lowered rows)) (reversed.map (Tree.lowered rows) ++ earlier)
  | .inside frame outer reversed =>
    .inside (frame.lowered rows) (outer.map (Frame.lowered rows))
      (reversed.map (Tree.lowered rows) ++ earlier)

variable {rows : Nat} {earlier : List Tree} {source other : Source}
variable {situation next last : Situation} {token : Token} {tokens : List Token}

theorem Frame.closed_lowered (frame : Frame) :
    (frame.lowered rows).closed = frame.closed.lowered rows := by
  rw [Frame.closed, Frame.closed, Tree.lowered_node, List.map_reverse]
  rfl

theorem Frame.withChild_lowered (frame : Frame) (child : Tree) :
    (frame.lowered rows).withChild (child.lowered rows) =
      (frame.withChild child).lowered rows := rfl

theorem Situation.close_lowered (frame : Frame) (outer : List Frame) (reversed : List Tree) :
    close (frame.lowered rows) (outer.map (Frame.lowered rows))
        (reversed.map (Tree.lowered rows) ++ earlier) =
      (close frame outer reversed).lowered rows earlier := by
  cases outer with
  | nil => simp [close, Situation.lowered, Frame.closed_lowered]
  | cons parent outer =>
    simp [close, Situation.lowered, Frame.closed_lowered, Frame.withChild_lowered]

theorem wordTree_lowered {word : String} {span : Span} {tree : Tree}
    (htree : wordTree word span = .ok tree) :
    wordTree word (span.lowered rows) = .ok (tree.lowered rows) := by
  rw [wordTree] at htree ⊢
  cases hname : Kind.ofName? word with
  | some kind =>
    rw [hname] at htree
    cases htree
    rfl
  | none =>
    rw [hname] at htree
    obtain ⟨constant, hconstant, rfl⟩ := map_eq_ok_iff.1 htree
    simp only [hconstant, Except.map]
    rfl

/-- A token that is taken is also taken further down and after other trees, and leads to
what it leads to here. -/
theorem Situation.step_lowered (hstep : situation.step source token = .ok next) :
    (situation.lowered rows earlier).step other (token.lowered rows) =
      .ok (next.lowered rows earlier) := by
  obtain ⟨type, value, span⟩ := token
  cases situation with
  | between reversed =>
    cases type <;> simp [step, refusal?, take] at hstep
    subst hstep
    rfl
  | opened outer reversed =>
    cases type <;> simp [step, refusal?, take] at hstep
    cases hname : Kind.ofName? value with
    | none => simp [hname] at hstep
    | some kind =>
      obtain rfl : .inside (.opened kind span) outer reversed = next := by
        simpa [hname] using hstep
      simp [step, refusal?, take, Situation.lowered, Token.lowered, hname, Frame.opened,
        Frame.lowered]
  | inside frame outer reversed =>
    cases type with
    | opening =>
      cases hstep
      rfl
    | closing =>
      cases hstep
      exact congrArg Except.ok (close_lowered frame outer reversed)
    | word =>
      simp only [step, refusal?, take] at hstep
      obtain ⟨tree, htree, rfl⟩ := map_eq_ok_iff.1 hstep
      simp only [step, refusal?, take, Situation.lowered, Token.lowered, wordTree_lowered htree,
        Except.map, Frame.withChild_lowered]
    | string =>
      simp only [step, refusal?, take] at hstep
      by_cases hfresh : frame.fresh = true
      · rw [if_pos hfresh] at hstep
        obtain ⟨text, htext, rfl⟩ := map_eq_ok_iff.1 hstep
        simp [step, refusal?, take, Situation.lowered, Token.lowered, Frame.lowered, hfresh, htext,
          Except.map]
      · rw [if_neg hfresh, Except.ok.injEq] at hstep
        subst hstep
        simp [step, refusal?, take, Situation.lowered, Token.lowered, Frame.lowered, hfresh,
          Frame.withChild, Tree.leaf, Tree.lowered_node]
    | finish => cases hstep

theorem Situation.takeAll_lowered (htake : situation.takeAll source tokens = .ok last) :
    (situation.lowered rows earlier).takeAll other (tokens.map (Token.lowered rows)) =
      .ok (last.lowered rows earlier) := by
  induction tokens generalizing situation with
  | nil =>
    cases htake
    rfl
  | cons token tokens ih =>
    rw [takeAll_cons] at htake
    obtain ⟨middle, hstep, hrest⟩ := bind_eq_ok_iff.1 htake
    rw [List.map_cons, takeAll_cons, step_lowered hstep]
    exact ih hrest

/-- Which source the tokens come from only matters for faults. -/
theorem Situation.step_of_source (hstep : situation.step source token = .ok next) :
    situation.step other token = .ok next := by
  obtain ⟨type, value, span⟩ := token
  cases situation with
  | between reversed => cases type <;> simp_all [step, refusal?, take]
  | opened outer reversed =>
    cases type <;> simp [step, refusal?, take] at hstep ⊢
    cases hname : Kind.ofName? value <;> simp_all
  | inside frame outer reversed => cases type <;> simp_all [step, refusal?, take]

theorem Situation.takeAll_of_source (htake : situation.takeAll source tokens = .ok last) :
    situation.takeAll other tokens = .ok last := by
  induction tokens generalizing situation with
  | nil => exact htake
  | cons token tokens ih =>
    rw [takeAll_cons] at htake
    obtain ⟨middle, hstep, hrest⟩ := bind_eq_ok_iff.1 htake
    rw [takeAll_cons, step_of_source hstep]
    exact ih hrest

/-- A text that is read leads from no trees to its trees. -/
theorem takeAll_of_readTrees {name : Option String} {text : String} {trees : List Tree}
    (hclosed : (pieces text.toList).any Piece.isUnclosed = false)
    (hread : readTrees name text = .ok trees) :
    (Situation.between []).takeAll ⟨name, some text⟩ (tokensFrom .start (pieces text.toList)) =
      .ok (.between trees.reverse) := by
  rw [readTrees_of_closed name rfl hclosed] at hread
  obtain ⟨situation, htake, hconclude⟩ := bind_eq_ok_iff.1 hread
  cases situation with
  | between reversed =>
    obtain rfl : reversed.reverse = trees := by simpa [Situation.conclude] using hconclude
    rw [htake, List.reverse_reverse]
  | opened outer reversed => simp [Situation.conclude] at hconclude
  | inside frame outer reversed => simp [Situation.conclude] at hconclude

/-- Without a token that marks the end, the reader does not come to an end. -/
theorem result_drive_ne_ok {fault? : Option Fault} {first : Token} {rest : List Token}
    (htokens : ∀ token ∈ first :: rest, token.type ≠ .finish) :
    (drive Situation.isFinished source fault? situation first rest).result ≠ .ok last := by
  induction rest generalizing situation first with
  | nil =>
    have hgoal : situation.isFinished first = false := by
      cases situation <;> simp [Situation.isFinished, htokens first]
    rw [drive, hgoal]
    cases situation.refusal? source first <;> simp
  | cons second rest ih =>
    obtain ⟨hfirst, hrest⟩ := List.forall_mem_cons.1 htokens
    have hgoal : situation.isFinished first = false := by
      cases situation <;> simp [Situation.isFinished, hfirst]
    rw [drive, hgoal]
    cases situation.refusal? source first with
    | some fault => simp
    | none =>
      cases htake : situation.take source first with
      | error fault => simp
      | ok following =>
        simp only [Bool.false_eq_true, if_false]
        exact ih hrest

/-- Only texts without an open string are read. -/
theorem any_isUnclosed_of_readTrees {name : Option String} {text : String} {trees : List Tree}
    (hread : readTrees name text = .ok trees) :
    (pieces text.toList).any Piece.isUnclosed = false := by
  by_contra hunclosed
  rw [Bool.not_eq_false] at hunclosed
  have htokens : ∀ token ∈ tokensFrom .start (pieces text.toList), token.type ≠ .finish :=
    fun _ => type_ne_finish_of_mem_tokensFrom
  rw [readTrees, tokenize] at hread
  simp only [hunclosed, if_true] at hread
  cases hstream : tokensFrom .start (pieces text.toList) with
  | nil => simp [hstream, Cursor.start, Cursor.advance] at hread
  | cons first rest =>
    simp only [hstream, Cursor.start, Cursor.advance, Cursor.readUntil] at hread
    obtain ⟨situation, hdrive, -⟩ := map_eq_ok_iff.1 hread
    rw [hstream] at htokens
    exact result_drive_ne_ok htokens hdrive

end Reading

/-- Two texts with a line feed between them, where the upper one has no open string, have
the tokens of the upper text and then those of the lower text, further down by the rows of
the upper one; the end or the fault is that of the lower text, as far down.  If both texts
are read, so are they together, as the trees of the upper text and then those of the lower
one with all places as far down. -/
theorem joined_texts_read_in_turn (name : Option String) (upper lower : String)
    (hupper : (tokenize name upper).fault? = none) :
    let joined := upper ++ "\n" ++ lower
    let rows := upper.toList.count '\n' + 1
    tokenize name joined =
        ⟨properTokens name upper ++ (tokenize name lower).tokens.map (Token.lowered rows),
          (tokenize name lower).fault?.map (Fault.lowered ⟨name, some joined⟩ rows)⟩ ∧
      ∀ trees others, readTrees name upper = .ok trees → readTrees name lower = .ok others →
        readTrees name joined = .ok (trees ++ others.map (Tree.lowered rows)) := by
  intro joined rows
  have hclosed := any_isUnclosed_of_fault? hupper
  have hjoined : joined.toList = upper.toList ++ '\n' :: lower.toList := by
    simp [joined]
  have htokens := tokensFrom_joined hclosed lower.toList
  have hunclosed := any_isUnclosed_joined hclosed lower.toList
  rw [← hjoined] at htokens hunclosed
  constructor
  · rw [properTokens_of_fault? hupper, tokenize, tokenize, hunclosed, htokens, hjoined,
      endToken, endToken, endSpan_joined]
    cases (pieces lower.toList).any Piece.isUnclosed with
    | true => simp [Fault.lowered, Location.lowered, Source.locate, Span.lowered, rows]
    | false => simp [Token.lowered, rows]
  · intro trees others htrees hothers
    have hlower := any_isUnclosed_of_readTrees hothers
    have hfirst := takeAll_of_readTrees hclosed htrees
    have hsecond := takeAll_of_readTrees hlower hothers
    have hupperTrees : (Situation.between []).takeAll ⟨name, some joined⟩
        (tokensFrom .start (pieces upper.toList)) = .ok (.between trees.reverse) :=
      Situation.takeAll_of_source hfirst
    have hlowerTrees : (Situation.between trees.reverse).takeAll ⟨name, some joined⟩
        ((tokensFrom .start (pieces lower.toList)).map (Token.lowered rows)) =
          .ok (.between (others.reverse.map (Tree.lowered rows) ++ trees.reverse)) :=
      @Situation.takeAll_lowered rows trees.reverse _ _ _ _ _ hsecond
    calc readTrees name joined
        = ((Situation.between []).takeAll ⟨name, some joined⟩
            (tokensFrom .start (pieces joined.toList))).bind
              (Situation.conclude ⟨name, some joined⟩ (endToken joined.toList)) :=
          readTrees_of_closed name rfl (hunclosed.trans hlower)
      _ = (Except.ok (.between (others.reverse.map (Tree.lowered rows) ++ trees.reverse))).bind
            (Situation.conclude ⟨name, some joined⟩ (endToken joined.toList)) := by
          rw [htokens, Situation.takeAll_append, hupperTrees, Except.bind, hlowerTrees]
      _ = .ok (trees ++ others.map (Tree.lowered rows)) := by
          simp [Except.bind, Situation.conclude]

/-- The line feed ends the comment of the upper text, so the second tree is on a row of its
own. -/
theorem joined_texts_read_in_turn_comment :
    (tokenize none "(NULL) ; end").fault? = none ∧
    readTrees none ("(NULL) ; end" ++ "\n" ++ "(FILE a)") =
      .ok [.node .null none (some ⟨1, 2, 4⟩) [],
        .node .file none (some ⟨2, 2, 4⟩) [.leaf .identifier "a" (some ⟨2, 7, 1⟩)]] := by
  have hfault : (tokenize none "(NULL) ; end").fault? = none := by decide +kernel
  have hupper : readTrees none "(NULL) ; end" = .ok [.node .null none (some ⟨1, 2, 4⟩) []] := by
    have htokens : tokensFrom .start (pieces "(NULL) ; end".toList) =
        [⟨.opening, "(", ⟨1, 1, 1⟩⟩, ⟨.word, "NULL", ⟨1, 2, 4⟩⟩, ⟨.closing, ")", ⟨1, 6, 1⟩⟩] := by
      decide +kernel
    rw [readTrees_of_closed none rfl (by decide +kernel), htokens]
    rfl
  have hlower : readTrees none "(FILE a)" =
      .ok [.node .file none (some ⟨1, 2, 4⟩) [.leaf .identifier "a" (some ⟨1, 7, 1⟩)]] := by
    have htokens : tokensFrom .start (pieces "(FILE a)".toList) =
        [⟨.opening, "(", ⟨1, 1, 1⟩⟩, ⟨.word, "FILE", ⟨1, 2, 4⟩⟩, ⟨.word, "a", ⟨1, 7, 1⟩⟩,
          ⟨.closing, ")", ⟨1, 8, 1⟩⟩] := by
      decide +kernel
    rw [readTrees_of_closed none rfl (by decide +kernel), htokens]
    rfl
  exact ⟨hfault, (joined_texts_read_in_turn none _ _ hfault).2 _ _ hupper hlower⟩

end Notation

end NescTree
