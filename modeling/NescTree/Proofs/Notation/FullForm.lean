import Mathlib.Data.List.Forall2
import NescTree.Notation.Writer
import NescTree.Proofs.Notation.Spelling
import NescTree.Proofs.Render.Content

/-!
# Reading the full form back

The full form of a tree spells one list for every node.  A text is left out where it
is the spelling of the kind, which the reader fills in again, and is escaped
otherwise.  So reading trees from their full forms gives trees of the same content,
and the full form says everything about a tree that structural comparison sees.
-/

namespace NescTree.Notation

theorem textOr_writtenText? (kind : Kind) (label : Option String) :
    kind.textOr (writtenText? kind label) = kind.textOr label := by
  cases label with
  | some text =>
    by_cases hspelling : kind.spelling? = some text <;>
      simp [writtenText?, Kind.textOr, Option.filter, hspelling]
  | none =>
    cases hspelling : kind.spelling? <;>
      simp [writtenText?, Kind.textOr, Option.filter, hspelling]

theorem meaning?_map_escape (text? : Option String) :
    Phrase.meaning? (text?.map escape) = text? := by
  cases text? with
  | none => rfl
  | some text => simp [Phrase.meaning?, unescape_escape, Except.toOption]

theorem isQuoted_of_mem_map_escape {text? : Option String} :
    ∀ text ∈ text?.map escape, IsQuoted text := by
  intro text hmem
  obtain ⟨plain, -, rfl⟩ := Option.map_eq_some_iff.1 hmem
  exact isQuoted_escape plain

/-- The string that is written for the text of a node. -/
def quotedText? (kind : Kind) (label : Option String) : Option String :=
  (writtenText? kind label).map escape

theorem quote_cons_tail_escape (text : String) :
    '"' :: (escape text).toList.tail = (escape text).toList := by
  simp [toList_escape]

theorem toList_heading (kind : Kind) (label : Option String) :
    (heading kind label).toList = kind.name.toList ++
      (Phrase.textPieces (quotedText? kind label)).flatMap Piece.chars := by
  rw [heading, quotedText?]
  cases writtenText? kind label with
  | none => simp [Phrase.textPieces]
  | some text =>
    simp [Phrase.textPieces, Piece.chars, quote_cons_tail_escape]

/-- A list that is spelled from the kind and text of a node has their content. -/
theorem content_list_quotedText? (kind : Kind) (label : Option String)
    (items : List Phrase) :
    (Phrase.list kind (quotedText? kind label) items).content =
      .node kind (kind.textOr label) none (items.map Phrase.content) := by
  rw [Phrase.content, quotedText?, meaning?_map_escape, textOr_writtenText?,
    Phrase.allContent_eq_map]

mutual

def fullPhrase : Tree → Phrase
  | .node kind label _ children =>
    .list kind (quotedText? kind label) (fullPhrases children)

def fullPhrases : List Tree → List Phrase
  | [] => []
  | tree :: trees => fullPhrase tree :: fullPhrases trees

end

theorem fullPhrases_eq_map (trees : List Tree) : fullPhrases trees = trees.map fullPhrase := by
  induction trees with
  | nil => rfl
  | cons tree trees ih => simp [fullPhrases, ih]

theorem isList_fullPhrase (tree : Tree) : (fullPhrase tree).isList = true := by
  cases tree
  rfl

theorem isString_fullPhrase (tree : Tree) : (fullPhrase tree).isString = false := by
  cases tree
  rfl

theorem toList_fullChildren {trees : List Tree}
    (hfull : ∀ tree ∈ trees,
      (full tree).toList = (fullPhrase tree).pieces.flatMap Piece.chars) :
    (fullChildren trees).toList =
      (Phrase.itemPieces (trees.map fullPhrase)).flatMap Piece.chars := by
  induction trees with
  | nil => rfl
  | cons tree trees ih =>
    obtain ⟨hhead, htail⟩ := List.forall_mem_cons.1 hfull
    simp [fullChildren, Phrase.itemPieces, hhead, ih htail, Piece.chars]

theorem toList_full (tree : Tree) :
    (full tree).toList = (fullPhrase tree).pieces.flatMap Piece.chars := by
  induction tree using Tree.inductionOn with
  | node kind label span children ih =>
    rw [full, fullPhrase, fullPhrases_eq_map, Phrase.pieces]
    simp [toList_heading, toList_fullChildren ih, Piece.chars]

theorem valid_fullPhrase (tree : Tree) : (fullPhrase tree).Valid := by
  induction tree using Tree.inductionOn with
  | node kind label span children ih =>
    rw [fullPhrase, fullPhrases_eq_map]
    refine .list isQuoted_of_mem_map_escape ?_ ?_
    · intro _ item hitem
      obtain ⟨child, -, rfl⟩ := List.mem_map.1 (List.mem_of_mem_head? hitem)
      exact isString_fullPhrase child
    · intro item hitem
      obtain ⟨child, hchild, rfl⟩ := List.mem_map.1 hitem
      exact ih child hchild

theorem content_fullPhrase (tree : Tree) : (fullPhrase tree).content = tree.content := by
  induction tree using Tree.inductionOn with
  | node kind label span children ih =>
    rw [fullPhrase, fullPhrases_eq_map, content_list_quotedText?, Tree.content_node,
      List.map_map]
    congr 1
    exact List.map_congr_left ih

theorem toList_intercalate_full (trees : List Tree) :
    (String.intercalate "\n" (trees.map full)).toList =
      Phrase.lineChars (trees.map fullPhrase) := by
  rw [String.toList_intercalate, Phrase.lineChars]
  induction trees with
  | nil => rfl
  | cons tree trees ih =>
    cases trees with
    | nil => simp [Phrase.linePieces, toList_full]
    | cons next trees =>
      simp only [List.map_cons, Phrase.linePieces, List.flatMap_append, List.flatMap_cons] at ih ⊢
      rw [List.intercalate_cons_cons, ih, toList_full]
      simp [Piece.chars]

theorem readTrees_intercalate_full (name : Option String) (trees : List Tree) :
    ∃ copies, readTrees name (String.intercalate "\n" (trees.map full)) = .ok copies ∧
      copies.map Tree.content = trees.map Tree.content := by
  have hvalid : ∀ phrase ∈ trees.map fullPhrase, phrase.Valid := by
    intro phrase hphrase
    obtain ⟨tree, -, rfl⟩ := List.mem_map.1 hphrase
    exact valid_fullPhrase tree
  have hlists : ∀ phrase ∈ trees.map fullPhrase, phrase.isList = true := by
    intro phrase hphrase
    obtain ⟨tree, -, rfl⟩ := List.mem_map.1 hphrase
    exact isList_fullPhrase tree
  obtain ⟨copies, hread, hcontent⟩ :=
    readTrees_lineChars name hvalid hlists (toList_intercalate_full trees)
  refine ⟨copies, hread, ?_⟩
  rw [hcontent, List.map_map]
  exact List.map_congr_left fun tree _ => content_fullPhrase tree

theorem readTree_full (name : Option String) (tree : Tree) :
    ∃ copy, readTree name (full tree) = .ok copy ∧ copy.content = tree.content := by
  obtain ⟨copy, hread, hcontent⟩ := readTree_pieces name (valid_fullPhrase tree)
    (isList_fullPhrase tree) (toList_full tree)
  exact ⟨copy, hread, hcontent.trans (content_fullPhrase tree)⟩

theorem fullPhrase_content (tree : Tree) : fullPhrase tree.content = fullPhrase tree := by
  induction tree using Tree.inductionOn with
  | node kind label span children ih =>
    rw [Tree.content_node, fullPhrase, fullPhrase, fullPhrases_eq_map, fullPhrases_eq_map,
      List.map_map, quotedText?, quotedText?, writtenText?, writtenText?, Tree.textOr_textOr]
    congr 1
    exact List.map_congr_left ih

theorem content_eq_iff_full_eq (tree other : Tree) :
    tree.content = other.content ↔ full tree = full other := by
  constructor
  · intro hcontent
    apply String.toList_inj.1
    rw [toList_full, toList_full, ← fullPhrase_content tree, hcontent, fullPhrase_content]
  · intro hfull
    obtain ⟨copy, hread, hcopy⟩ := readTree_full none tree
    obtain ⟨copyOther, hreadOther, hcopyOther⟩ := readTree_full none other
    rw [hfull, hreadOther] at hread
    cases hread
    rw [← hcopy, hcopyOther]

/-- Trees that are written in full, one on each line, read back as the same trees in
the same order.  In particular this holds of a single tree, whose copy also renders
in the same way, and full forms are equal exactly for structurally equal trees. -/
theorem full_roundtrip (name : Option String) :
    (∀ trees : List Tree, ∃ copies,
      readTrees name (String.intercalate "\n" (trees.map full)) = .ok copies ∧
        List.Forall₂ (fun copy tree => Tree.same copy tree = true) copies trees) ∧
    (∀ tree : Tree, ∃ copy, readTree name (full tree) = .ok copy ∧
      Tree.same copy tree = true ∧ Render.renderText copy = Render.renderText tree) ∧
    (∀ tree other : Tree, Tree.same tree other = true ↔ full tree = full other) := by
  refine ⟨?_, ?_, ?_⟩
  · intro trees
    obtain ⟨copies, hread, hcontent⟩ := readTrees_intercalate_full name trees
    refine ⟨copies, hread, ?_⟩
    have hpairs : List.Forall₂ (· = ·) (copies.map Tree.content) (trees.map Tree.content) := by
      rwa [List.forall₂_eq_eq_eq]
    simp only [Tree.same_eq_true_iff]
    exact List.forall₂_map_left_iff.1 (List.forall₂_map_right_iff.1 hpairs)
  · intro tree
    obtain ⟨copy, hread, hcontent⟩ := readTree_full name tree
    exact ⟨copy, hread, (Tree.same_eq_true_iff copy tree).2 hcontent,
      Render.renderText_eq_of_content_eq hcontent⟩
  · intro tree other
    rw [Tree.same_eq_true_iff]
    exact content_eq_iff_full_eq tree other

end NescTree.Notation
