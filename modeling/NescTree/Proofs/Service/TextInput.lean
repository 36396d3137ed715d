import NescTree.Proofs.Notation.Concatenation
import NescTree.Proofs.Notation.Lexing
import NescTree.Service

/-!
# Texts and names of files

A text that is given to be rendered or dumped is taken for tree notation if its first character
that is not blank is a parenthesis, and for the name of a file otherwise.  The reader also accepts
a comment before the first tree.  Comments are all that the two disagree about: a text that the
reader accepts starts, after some blanks, with a parenthesis or with a comment, and with a comment
a file of that name is looked for.
-/

namespace NescTree

namespace Notation

/-- Whether the first character of a text that does not separate tokens is a given one. -/
def LeadsWith (mark : Char) (text : List Char) : Prop :=
  ∃ gaps rest, text = gaps ++ mark :: rest ∧ ∀ char ∈ gaps, isGap char = true

theorem leadsWith_self (mark : Char) (rest : List Char) : LeadsWith mark (mark :: rest) :=
  ⟨[], rest, rfl, by simp⟩

theorem LeadsWith.gap {mark char : Char} {text : List Char} (hgap : isGap char = true)
    (hlead : LeadsWith mark text) : LeadsWith mark (char :: text) := by
  obtain ⟨gaps, rest, rfl, hgaps⟩ := hlead
  exact ⟨char :: gaps, rest, rfl, List.forall_mem_cons.2 ⟨hgap, hgaps⟩⟩

/-- A text whose first token is an opening parenthesis leads with it or with a comment. -/
theorem leadsWith_of_tokensFrom {parts : List Piece} (hparts : Separated parts)
    {position : Position} {token : Token} {tokens : List Token}
    (htokens : tokensFrom position parts = token :: tokens) (htype : token.type = .opening) :
    LeadsWith '(' (parts.flatMap Piece.chars) ∨ LeadsWith ';' (parts.flatMap Piece.chars) := by
  induction parts generalizing position with
  | nil => cases htokens
  | cons piece parts ih =>
    obtain ⟨hends, hrest⟩ := hparts
    rw [tokensFrom] at htokens
    cases piece with
    | gap char => exact (ih hrest htokens).imp (.gap hends) (.gap hends)
    | comment body => exact .inr (leadsWith_self ';' _)
    | opening => exact .inl (leadsWith_self '(' _)
    | unclosed body =>
      obtain rfl := eq_nil_of_flatMap_chars hrest hends.2
      cases htokens
    | closing | word chars | string body =>
      obtain ⟨rfl, -⟩ := List.cons.inj htokens
      cases htype

/-- The first token of a text that is read as a tree is an opening parenthesis. -/
theorem exists_opening_of_readTree {name : Option String} {text : String} {tree : Tree}
    (hread : readTree name text = .ok tree) :
    ∃ token tokens, tokensFrom .start (pieces text.toList) = token :: tokens ∧
      token.type = .opening := by
  have htrees := readTree_eq_ok_iff.1 hread
  have htake := takeAll_of_readTrees (any_isUnclosed_of_readTrees htrees) htrees
  cases htokens : tokensFrom .start (pieces text.toList) with
  | nil =>
    rw [htokens] at htake
    cases htake
  | cons token tokens =>
    refine ⟨token, tokens, rfl, ?_⟩
    rw [htokens, Situation.takeAll_cons] at htake
    by_contra htype
    have hstep : ∃ fault, (Situation.between []).step ⟨name, some text⟩ token = .error fault := by
      rw [Situation.step]
      cases hfound : token.type with
      | opening => exact absurd hfound htype
      | _ => exact ⟨_, by simp only [Situation.refusal?, hfound]; rfl⟩
    obtain ⟨fault, hfault⟩ := hstep
    rw [hfault] at htake
    cases htake

end Notation

namespace Service

open Notation

section Results

theorem result_readFile (store : Store) (name : String) :
    (readFile store name).result = (openFile store name).bind (readTree (some name)) := by
  rw [readFile, Logged.result_bind, Logged.result_ofExcept]
  apply congrArg
  funext text
  exact result_readOne name text

/-- Without highlighting the text of a tree is what it is rendered to. -/
theorem result_renderTree (tree : Tree) :
    (renderTree .initial tree).result = Render.renderText tree := by
  rw [renderTree, Logged.result_bind]
  change (Render.renderText tree).bind _ = _
  cases Render.renderText tree with
  | error fault => rfl
  | ok text => rfl

end Results

section Dispatch

variable {text : String}

theorem isBlank_of_isGap {char : Char} (hgap : isGap char = true) : Text.isBlank char = true := by
  have hcases : char = ' ' ∨ char = '\t' ∨ char = '\r' ∨ char = '\n' := by
    simpa [isGap, or_assoc] using hgap
  rcases hcases with rfl | rfl | rfl | rfl <;> rfl

/-- The first character after the blanks decides what a text is taken for. -/
theorem isNotation_of_leadsWith {mark : Char} (hlead : LeadsWith mark text.toList)
    (hmark : Text.isBlank mark = false) : isNotation text = (mark == '(') := by
  obtain ⟨gaps, rest, htext, hgaps⟩ := hlead
  have hblank : ∀ char ∈ gaps, Text.isBlank char = true := fun char hchar =>
    isBlank_of_isGap (hgaps char hchar)
  rw [isNotation, htext, List.dropWhile_append_of_pos hblank,
    List.dropWhile_cons_of_neg (by simp [hmark])]
  rfl

/-- A text that the reader accepts is taken for tree notation unless it leads with a comment. -/
theorem isNotation_iff {name : Option String} {tree : Tree}
    (hread : readTree name text = .ok tree) :
    isNotation text = true ↔ ¬ LeadsWith ';' text.toList := by
  constructor
  · intro hmeant hcomment
    rw [isNotation_of_leadsWith hcomment (by decide)] at hmeant
    cases hmeant
  · intro hcomment
    obtain ⟨token, tokens, htokens, htype⟩ := exists_opening_of_readTree hread
    have hlead := leadsWith_of_tokensFrom (separated_pieces _) htokens htype
    rw [flatMap_chars_pieces] at hlead
    exact isNotation_of_leadsWith (hlead.resolve_right hcomment) (by decide)

theorem result_read_of_isNotation (hmeant : isNotation text = true) (store : Store) :
    (read store (.text text)).result = readTree (some anonymous) text := by
  rw [read, if_pos hmeant, result_readOne]

theorem result_read_of_not_isNotation (hmeant : ¬ isNotation text = true) (store : Store) :
    (read store (.text text)).result = (openFile store text).bind (readTree (some text)) := by
  rw [read, if_neg hmeant, result_readFile]

theorem result_render (store : Store) (input : Input) :
    (render store .initial input).result = (read store input).result.bind Render.renderText := by
  rw [render, Logged.result_bind]
  apply congrArg
  funext tree
  exact result_renderTree tree

theorem result_dump (store : Store) (input : Input) :
    (dump store .initial input).result = (read store input).result.map Outline.render := by
  rw [dump, Logged.result_bind]
  cases (read store input).result with
  | error fault => rfl
  | ok tree => rfl

end Dispatch

/-- A text that the reader accepts is rendered and dumped as the tree that it denotes, whatever
files there are, unless it leads with a comment.  Then it is taken for the name of a file, and
what is rendered and dumped is the tree of that file, if there is one. -/
theorem accepted_text_taken_unless_comment {text : String} {tree : Tree}
    (hread : readTree (some anonymous) text = .ok tree) (store : Store) :
    (¬ LeadsWith ';' text.toList →
      (render store .initial (.text text)).result = Render.renderText tree ∧
      (dump store .initial (.text text)).result = .ok (Outline.render tree)) ∧
    (LeadsWith ';' text.toList →
      (render store .initial (.text text)).result =
        ((openFile store text).bind (readTree (some text))).bind Render.renderText ∧
      (dump store .initial (.text text)).result =
        ((openFile store text).bind (readTree (some text))).map Outline.render) := by
  have hmeant := isNotation_iff hread
  rw [result_render, result_dump]
  constructor
  · intro hcomment
    rw [result_read_of_isNotation (hmeant.2 hcomment), hread]
    exact ⟨rfl, rfl⟩
  · intro hcomment
    rw [result_read_of_not_isNotation fun htrue => hmeant.1 htrue hcomment]
    exact ⟨rfl, rfl⟩

/-- A text after a blank, in a directory with a file of the same name. -/
theorem accepted_text_taken_unless_comment_same_name :
    let text := " (BREAK)"
    let store : Store := ⟨[([text], "(CONTINUE)")], []⟩
    ∃ tree, readTree (some anonymous) text = .ok tree ∧ ¬ LeadsWith ';' text.toList ∧
      (render store .initial (.text text)).result = .ok "break;\n\n" ∧
      (dump store .initial (.text text)).result = .ok "BREAK\n" := by
  intro text store
  have hread : readTree (some anonymous) text =
      .ok (.node .breakJump none (some ⟨1, 3, 5⟩) []) := by
    have htokens : tokensFrom .start (pieces text.toList) =
        [⟨.opening, "(", ⟨1, 2, 1⟩⟩, ⟨.word, "BREAK", ⟨1, 3, 5⟩⟩, ⟨.closing, ")", ⟨1, 8, 1⟩⟩] := by
      decide +kernel
    rw [readTree, readTrees_of_closed _ rfl (by decide +kernel), htokens]
    rfl
  have hcomment : ¬ LeadsWith ';' text.toList := (isNotation_iff hread).1 (by decide +kernel)
  have htaken := (accepted_text_taken_unless_comment hread store).1 hcomment
  refine ⟨_, hread, hcomment, ?_, ?_⟩
  · rw [htaken.1]
    decide +kernel
  · rw [htaken.2]
    decide +kernel

/-- A comment before the tree: a file is looked for, and its tree is rendered if there is one. -/
theorem comment_taken_for_file_name :
    let text := "; note\n(BREAK)"
    let store : Store := ⟨[([text], "(CONTINUE)")], []⟩
    ∃ tree, readTree (some anonymous) text = .ok tree ∧
      Render.renderText tree = .ok "break;\n\n" ∧
      (render .empty .initial (.text text)).result = .error (.cannotOpen .missing text) ∧
      (render store .initial (.text text)).result = .ok "continue;\n\n" := by
  intro text store
  have hread : readTree (some anonymous) text =
      .ok (.node .breakJump none (some ⟨2, 2, 5⟩) []) := by
    have htokens : tokensFrom .start (pieces text.toList) =
        [⟨.opening, "(", ⟨2, 1, 1⟩⟩, ⟨.word, "BREAK", ⟨2, 2, 5⟩⟩, ⟨.closing, ")", ⟨2, 7, 1⟩⟩] := by
      decide +kernel
    rw [readTree, readTrees_of_closed _ rfl (by decide +kernel), htokens]
    rfl
  exact ⟨_, hread, by decide +kernel, by decide +kernel, by decide +kernel⟩

end Service

end NescTree
