import NescTree.Proofs.Notation.Cutting
import NescTree.Proofs.Notation.Phrase

/-!
# Phrases as text

A phrase is spelled with one space in front of everything inside a list.  The pieces
of such a text are the pieces it was spelled from, so a text that spells valid
phrases reads back as the trees that the phrases denote.
-/

namespace NescTree.Notation

/-- Whether a text could follow a word without becoming part of it. -/
def StartsWithStop (text : List Char) : Prop :=
  ∀ char ∈ text.head?, isStop char = true

theorem startsWithStop_nil : StartsWithStop [] := by
  intro char hchar
  simp at hchar

theorem StartsWithStop.append {first second : List Char} (hfirst : StartsWithStop first)
    (hsecond : StartsWithStop second) : StartsWithStop (first ++ second) := by
  cases first with
  | nil => exact hsecond
  | cons char first => simpa [StartsWithStop] using hfirst

/-- Pieces that amount to the given lexemes, in front of any text that ends a word. -/
structure Spells (parts : List Piece) (lexemes : List Lexeme) : Prop where
  separated : ∀ rest, Separated rest → StartsWithStop (rest.flatMap Piece.chars) →
    Separated (parts ++ rest)
  closed : parts.any Piece.isUnclosed = false
  lexemes_eq : parts.filterMap Piece.lexeme? = lexemes

namespace Spells

theorem nil : Spells [] [] := ⟨fun _ hrest _ => hrest, rfl, rfl⟩

theorem append {first second : List Piece} {before after : List Lexeme}
    (hfirst : Spells first before) (hsecond : Spells second after)
    (hstop : StartsWithStop (second.flatMap Piece.chars)) :
    Spells (first ++ second) (before ++ after) where
  separated rest hrest hend := by
    rw [List.append_assoc]
    apply hfirst.separated
    · exact hsecond.separated rest hrest hend
    · rw [List.flatMap_append]
      exact hstop.append hend
  closed := by simp [hfirst.closed, hsecond.closed]
  lexemes_eq := by simp [hfirst.lexemes_eq, hsecond.lexemes_eq]

theorem cons {piece : Piece} {parts : List Piece} {lexemes : List Lexeme}
    (hends : ∀ rest, StartsWithStop rest →
      piece.EndsAt (parts.flatMap Piece.chars ++ rest))
    (hclosed : piece.isUnclosed = false) (hparts : Spells parts lexemes) :
    Spells (piece :: parts) (piece.lexeme?.toList ++ lexemes) where
  separated rest hrest hend := by
    rw [List.cons_append, separated_cons, List.flatMap_append]
    exact ⟨hends _ hend, hparts.separated rest hrest hend⟩
  closed := by simp [hclosed, hparts.closed]
  lexemes_eq := by
    cases hlexeme : piece.lexeme? <;> simp [hlexeme, hparts.lexemes_eq]

section Pieces

variable {parts : List Piece} {lexemes : List Lexeme}

theorem gap {char : Char} (hgap : isGap char = true) (hparts : Spells parts lexemes) :
    Spells (.gap char :: parts) lexemes :=
  hparts.cons (fun _ _ => hgap) rfl

theorem opening (hparts : Spells parts lexemes) :
    Spells (.opening :: parts) ((.opening, "(") :: lexemes) :=
  hparts.cons (fun _ _ => trivial) rfl

theorem closing (hparts : Spells parts lexemes) :
    Spells (.closing :: parts) ((.closing, ")") :: lexemes) :=
  hparts.cons (fun _ _ => trivial) rfl

theorem word {value : String} (hvalue : isBareWord value.toList = true)
    (hstop : StartsWithStop (parts.flatMap Piece.chars)) (hparts : Spells parts lexemes) :
    Spells (.word value.toList :: parts) ((.word, value) :: lexemes) := by
  have hspells : Spells (.word value.toList :: parts) _ :=
    hparts.cons (fun _ hrest => ⟨hvalue, hstop.append hrest⟩) rfl
  simpa [Piece.lexeme?, Piece.tokenType?, Piece.chars] using hspells

theorem string {value : String} (hvalue : IsQuoted value) (hparts : Spells parts lexemes) :
    Spells (.string value.toList.tail :: parts) ((.string, value) :: lexemes) := by
  obtain ⟨body, hbody, hcut⟩ := hvalue
  have htail : value.toList.tail = body := by rw [hbody, List.tail_cons]
  have hvalue : String.ofList ('"' :: body) = value := by rw [← hbody, String.ofList_toList]
  rw [htail]
  have hspells : Spells (.string body :: parts) _ :=
    hparts.cons (fun _ _ => cutString_append_right hcut _) rfl
  simpa [Piece.lexeme?, Piece.tokenType?, Piece.chars, hvalue] using hspells

end Pieces

end Spells

namespace Phrase

/-- The text of a list, with the space in front of it. -/
def textPieces (text? : Option String) : List Piece :=
  text?.toList.flatMap fun text => [.gap ' ', .string text.toList.tail]

mutual

def pieces : Phrase → List Piece
  | .word value => [.word value.toList]
  | .string value => [.string value.toList.tail]
  | .list kind text? items =>
    .opening :: .word kind.name.toList ::
      (textPieces text? ++ (itemPieces items ++ [.closing]))

def itemPieces : List Phrase → List Piece
  | [] => []
  | item :: items => .gap ' ' :: (pieces item ++ itemPieces items)

end

theorem startsWithStop_textPieces (text? : Option String) :
    StartsWithStop ((textPieces text?).flatMap Piece.chars) := by
  cases text? with
  | none => exact startsWithStop_nil
  | some text => simp [StartsWithStop, textPieces, Piece.chars, isStop, isGap]

theorem startsWithStop_itemPieces (items : List Phrase) :
    StartsWithStop ((itemPieces items).flatMap Piece.chars) := by
  cases items with
  | nil => exact startsWithStop_nil
  | cons item items => simp [StartsWithStop, itemPieces, Piece.chars, isStop, isGap]

theorem startsWithStop_closing : StartsWithStop ([Piece.closing].flatMap Piece.chars) := by
  simp [StartsWithStop, Piece.chars, isStop]

theorem spells_textPieces {text? : Option String} (htext : ∀ text ∈ text?, IsQuoted text) :
    Spells (textPieces text?) (text?.toList.map (TokenType.string, ·)) := by
  cases text? with
  | none => exact Spells.nil
  | some text => exact (Spells.nil.string (htext text rfl)).gap rfl

theorem spells_itemPieces {items : List Phrase}
    (hitems : ∀ item ∈ items, Spells item.pieces item.lexemes) :
    Spells (itemPieces items) (allLexemes items) := by
  induction items with
  | nil => exact Spells.nil
  | cons item items ih =>
    obtain ⟨hitem, hrest⟩ := List.forall_mem_cons.1 hitems
    exact (hitem.append (ih hrest) (startsWithStop_itemPieces items)).gap rfl

/-- A valid phrase is spelled by its pieces. -/
theorem Valid.spells {phrase : Phrase} (hvalid : phrase.Valid) :
    Spells phrase.pieces phrase.lexemes := by
  induction hvalid with
  | word hvalue => exact Spells.nil.word hvalue startsWithStop_nil
  | string hvalue => exact Spells.nil.string hvalue
  | @list kind text? items htext _ _ ih =>
    have hend : Spells (itemPieces items ++ [.closing])
        (allLexemes items ++ [(.closing, ")")]) :=
      (spells_itemPieces ih).append Spells.nil.closing startsWithStop_closing
    have hendStop : StartsWithStop
        ((itemPieces items ++ [Piece.closing]).flatMap Piece.chars) := by
      rw [List.flatMap_append]
      exact (startsWithStop_itemPieces items).append startsWithStop_closing
    have hinner := (spells_textPieces htext).append hend hendStop
    refine Spells.opening (Spells.word kind.isBareWord_name ?_ hinner)
    rw [List.flatMap_append]
    exact (startsWithStop_textPieces text?).append hendStop

def linePieces : List Phrase → List Piece
  | [] => []
  | [phrase] => phrase.pieces
  | phrase :: next :: phrases => phrase.pieces ++ .gap '\n' :: linePieces (next :: phrases)

theorem spells_linePieces {phrases : List Phrase} (hvalid : ∀ phrase ∈ phrases, phrase.Valid) :
    Spells (linePieces phrases) (allLexemes phrases) := by
  fun_induction linePieces phrases with
  | case1 => exact Spells.nil
  | case2 phrase =>
    have hphrase := (hvalid phrase (by simp)).spells
    simpa [allLexemes] using hphrase
  | case3 phrase next phrases ih =>
    obtain ⟨hphrase, hrest⟩ := List.forall_mem_cons.1 hvalid
    refine hphrase.spells.append ((ih hrest).gap rfl) ?_
    simp [StartsWithStop, Piece.chars, isStop, isGap]

def lineChars (phrases : List Phrase) : List Char :=
  (linePieces phrases).flatMap Piece.chars

end Phrase

theorem foldl_withTree_between (reversed trees : List Tree) :
    trees.foldl Situation.withTree (.between reversed) =
      .between (trees.reverse ++ reversed) := by
  induction trees generalizing reversed with
  | nil => rfl
  | cons tree trees ih => simp [Situation.withTree, ih]

/-- Lines that spell lists read back as the trees that the lists denote. -/
theorem readTrees_lineChars (name : Option String) {phrases : List Phrase}
    (hvalid : ∀ phrase ∈ phrases, phrase.Valid)
    (hlists : ∀ phrase ∈ phrases, phrase.isList = true) {text : String}
    (htext : text.toList = Phrase.lineChars phrases) :
    ∃ trees, readTrees name text = .ok trees ∧
      trees.map Tree.content = phrases.map Phrase.content := by
  have hspells := Phrase.spells_linePieces hvalid
  have hseparated : Separated (Phrase.linePieces phrases) := by
    simpa using hspells.separated [] separated_nil startsWithStop_nil
  have hpieces : pieces text.toList = Phrase.linePieces phrases := by
    rw [htext]
    exact pieces_flatMap_chars hseparated
  have hreads : Reads ⟨name, some text⟩ phrases :=
    reads_of_forall fun phrase hmem => (hvalid phrase hmem).reads
  obtain ⟨trees, hcontent, htake⟩ := hreads (.between [])
    (tokensFrom .start (Phrase.linePieces phrases)) hlists
    (by rw [map_lexeme_tokensFrom, hspells.lexemes_eq])
  refine ⟨trees, ?_, hcontent⟩
  rw [readTrees_of_closed name hpieces hspells.closed, htake, foldl_withTree_between]
  simp [Situation.conclude, Except.bind]

/-- A text that spells a single list reads back as one tree. -/
theorem readTree_pieces (name : Option String) {phrase : Phrase} (hvalid : phrase.Valid)
    (hlist : phrase.isList = true) {text : String}
    (htext : text.toList = phrase.pieces.flatMap Piece.chars) :
    ∃ tree, readTree name text = .ok tree ∧ tree.content = phrase.content := by
  obtain ⟨trees, hread, hcontent⟩ := @readTrees_lineChars name [phrase]
    (by simpa using hvalid) (by simpa using hlist) text htext
  obtain ⟨tree, rfl, htree⟩ : ∃ tree, trees = [tree] ∧ tree.content = phrase.content := by
    simpa [List.map_eq_singleton_iff] using hcontent
  refine ⟨tree, ?_, htree⟩
  rw [readTree, hread]
  rfl

end NescTree.Notation
