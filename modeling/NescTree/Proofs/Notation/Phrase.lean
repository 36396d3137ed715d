import NescTree.Proofs.Notation.Quoting
import NescTree.Proofs.Notation.Reading
import NescTree.Proofs.Notation.KindName
import NescTree.Proofs.Tree.Content

/-!
# Phrases of tree notation

A phrase is what stands for one tree: a word, a string, or a list in parentheses
with the name of a kind, possibly a string for the text, and the phrases of the
children.  Reading the lexemes of a phrase adds the tree that the phrase denotes to
what has been read, wherever the phrase may stand and whatever places its tokens
have.
-/

namespace NescTree.Notation

/-- What stands for a tree in tree notation. -/
inductive Phrase where
  | word (value : String)
  | string (value : String)
  | list (kind : Kind) (text? : Option String) (items : List Phrase)

def startsConstant : List Char → Bool
  | [] => false
  | '.' :: second :: _ => Text.isDigit second
  | first :: _ => Text.isDigit first || first == '\x27'

theorem looksConstant_eq_ok {word : List Char} (hword : word ≠ []) :
    looksConstant word = .ok (startsConstant word) := by
  unfold looksConstant startsConstant
  split <;> simp_all

/-- The content of the leaf that a word stands for. -/
def wordContent (word : String) : Tree :=
  match Kind.ofName? word with
  | some kind => .node kind kind.spelling? none []
  | none =>
    .node (if startsConstant word.toList then .constant else .identifier) (some word) none []

theorem wordTree_eq_ok {word : String} (hword : word.toList ≠ []) (span : Span) :
    ∃ tree, wordTree word span = .ok tree ∧ tree.content = wordContent word := by
  rw [wordTree, wordContent, looksConstant_eq_ok hword]
  cases Kind.ofName? word with
  | some kind => exact ⟨_, rfl, rfl⟩
  | none => exact ⟨_, rfl, rfl⟩

namespace Phrase

def isString : Phrase → Bool
  | .string _ => true
  | _ => false

def isList : Phrase → Bool
  | .list _ _ _ => true
  | _ => false

/-- Phrases whose words and strings are such, and in which no string that stands for a
child directly follows the name of a kind. -/
inductive Valid : Phrase → Prop where
  | word {value : String} (hvalue : isBareWord value.toList = true) : Valid (.word value)
  | string {value : String} (hvalue : IsQuoted value) : Valid (.string value)
  | list {kind : Kind} {text? : Option String} {items : List Phrase}
      (htext : ∀ text ∈ text?, IsQuoted text)
      (hfirst : text? = none → ∀ item ∈ items.head?, item.isString = false)
      (hitems : ∀ item ∈ items, Valid item) : Valid (.list kind text? items)

mutual

def lexemes : Phrase → List Lexeme
  | .word value => [(.word, value)]
  | .string value => [(.string, value)]
  | .list kind text? items =>
    (.opening, "(") :: (.word, kind.name) ::
      (text?.toList.map (TokenType.string, ·) ++ (allLexemes items ++ [(.closing, ")")]))

def allLexemes : List Phrase → List Lexeme
  | [] => []
  | phrase :: phrases => lexemes phrase ++ allLexemes phrases

end

/-- The text that a string in front of the children gives to a node. -/
def meaning? (text? : Option String) : Option String :=
  text?.bind fun text => (unescape text).toOption

mutual

def content : Phrase → Tree
  | .word value => wordContent value
  | .string value => .node .stringLiteral (some value) none []
  | .list kind text? items =>
    .node kind (kind.textOr (meaning? text?)) none (allContent items)

def allContent : List Phrase → List Tree
  | [] => []
  | phrase :: phrases => content phrase :: allContent phrases

end

theorem allContent_eq_map (phrases : List Phrase) :
    allContent phrases = phrases.map content := by
  induction phrases with
  | nil => rfl
  | cons phrase phrases ih => simp [allContent, ih]

end Phrase

theorem lexeme_eq_iff {token : Token} {type : TokenType} {value : String} :
    token.lexeme = (type, value) ↔ token.type = type ∧ token.value = value := by
  simp [Token.lexeme]

namespace Situation

def frames : Situation → List Frame
  | .between _ => []
  | .opened outer _ => outer
  | .inside frame outer _ => frame :: outer

def reversed : Situation → List Tree
  | .between reversed | .opened _ reversed | .inside _ _ reversed => reversed

def withTree (situation : Situation) (tree : Tree) : Situation :=
  match situation with
  | .between reversed => .between (tree :: reversed)
  | .opened outer reversed => .opened outer reversed
  | .inside frame outer reversed => .inside (frame.withChild tree) outer reversed

/-- Whether some phrases may follow one another in a situation. -/
def Admits (situation : Situation) (phrases : List Phrase) : Prop :=
  match situation with
  | .between _ => ∀ phrase ∈ phrases, phrase.isList = true
  | .opened _ _ => phrases = []
  | .inside frame _ _ =>
    frame.fresh = true → ∀ phrase ∈ phrases.head?, phrase.isString = false

theorem Admits.head {situation : Situation} {phrase : Phrase} {phrases : List Phrase}
    (hadmits : situation.Admits (phrase :: phrases)) : situation.Admits [phrase] := by
  cases situation with
  | between reversed => simp_all [Admits]
  | opened outer reversed => simp [Admits] at hadmits
  | inside frame outer reversed => simpa [Admits] using hadmits

theorem Admits.tail {situation : Situation} {phrase : Phrase} {phrases : List Phrase}
    (hadmits : situation.Admits (phrase :: phrases)) (tree : Tree) :
    (situation.withTree tree).Admits phrases := by
  cases situation with
  | between reversed => simp_all [Admits, withTree]
  | opened outer reversed => simp [Admits] at hadmits
  | inside frame outer reversed => simp [Admits, withTree, Frame.withChild]

theorem close_eq_withTree {situation : Situation} {phrase : Phrase}
    (hadmits : situation.Admits [phrase]) (frame : Frame) :
    close frame situation.frames situation.reversed = situation.withTree frame.closed := by
  cases situation with
  | opened outer reversed => simp [Admits] at hadmits
  | between reversed => rfl
  | inside parent outer reversed => rfl

section Step

variable {source : Source} {token : Token}

theorem step_opening {situation : Situation} {kind : Kind} {text? : Option String}
    {items : List Phrase} (hadmits : situation.Admits [.list kind text? items])
    (htoken : token.lexeme = (.opening, "(")) :
    situation.step source token = .ok (.opened situation.frames situation.reversed) := by
  have htype := (lexeme_eq_iff.1 htoken).1
  cases situation with
  | opened outer reversed => simp [Admits] at hadmits
  | between reversed => simp [step, refusal?, take, htype, frames, Situation.reversed]
  | inside frame outer reversed =>
    simp [step, refusal?, take, htype, frames, Situation.reversed]

theorem step_kind {outer : List Frame} {reversed : List Tree} {kind : Kind}
    (htoken : token.lexeme = (.word, kind.name)) :
    (Situation.opened outer reversed).step source token =
      .ok (.inside (.opened kind token.span) outer reversed) := by
  obtain ⟨htype, hvalue⟩ := lexeme_eq_iff.1 htoken
  simp [step, refusal?, take, htype, hvalue]

theorem step_closing {frame : Frame} {outer : List Frame} {reversed : List Tree}
    (htoken : token.lexeme = (.closing, ")")) :
    (Situation.inside frame outer reversed).step source token =
      .ok (close frame outer reversed) := by
  have htype := (lexeme_eq_iff.1 htoken).1
  simp [step, refusal?, take, htype]

theorem step_word {frame : Frame} {outer : List Frame} {reversed : List Tree}
    {value : String} (hvalue : isBareWord value.toList = true)
    (htoken : token.lexeme = (.word, value)) :
    ∃ tree, tree.content = wordContent value ∧
      (Situation.inside frame outer reversed).step source token =
        .ok (.inside (frame.withChild tree) outer reversed) := by
  obtain ⟨htype, htext⟩ := lexeme_eq_iff.1 htoken
  have hne : value.toList ≠ [] := by
    intro hnil
    simp [hnil, isBareWord] at hvalue
  obtain ⟨tree, htree, hcontent⟩ := wordTree_eq_ok hne token.span
  exact ⟨tree, hcontent, by simp [step, refusal?, take, htype, htext, htree, Except.map]⟩

theorem step_string {frame : Frame} {outer : List Frame} {reversed : List Tree}
    {value : String} (hfresh : frame.fresh = false)
    (htoken : token.lexeme = (.string, value)) :
    ∃ tree, tree.content = .node .stringLiteral (some value) none [] ∧
      (Situation.inside frame outer reversed).step source token =
        .ok (.inside (frame.withChild tree) outer reversed) := by
  obtain ⟨htype, htext⟩ := lexeme_eq_iff.1 htoken
  exact ⟨.leaf .stringLiteral value token.span, rfl, by
    simp [step, refusal?, take, htype, htext, hfresh]⟩

/-- A string directly after the name of a kind gives the node its text. -/
theorem takeAll_text {kind : Kind} {span : Span} {outer : List Frame} {reversed : List Tree}
    {text? : Option String} (htext : ∀ text ∈ text?, IsQuoted text) {tokens : List Token}
    (htokens : tokens.map Token.lexeme = text?.toList.map (TokenType.string, ·)) :
    (Situation.inside (.opened kind span) outer reversed).takeAll source tokens =
      .ok (.inside ⟨kind, Phrase.meaning? text?, span, [], text?.isNone⟩ outer reversed) := by
  cases text? with
  | none =>
    obtain rfl : tokens = [] := by simpa using htokens
    rfl
  | some text =>
    obtain ⟨token, rfl, hlexeme⟩ : ∃ token, tokens = [token] ∧
        token.lexeme = (.string, text) := by
      simpa [List.map_eq_singleton_iff] using htokens
    obtain ⟨htype, hvalue⟩ := lexeme_eq_iff.1 hlexeme
    obtain ⟨meaning, hmeaning⟩ := (htext text rfl).exists_unescape
    simp [takeAll_cons, step, refusal?, take, htype, hvalue, Frame.opened, hmeaning,
      Phrase.meaning?, Except.map, Except.bind, Except.toOption]

end Step

end Situation

/-- Taking the lexemes of some phrases adds trees with the contents they denote. -/
def Reads (source : Source) (phrases : List Phrase) : Prop :=
  ∀ (situation : Situation) (tokens : List Token), situation.Admits phrases →
    tokens.map Token.lexeme = Phrase.allLexemes phrases →
      ∃ trees : List Tree, trees.map Tree.content = phrases.map Phrase.content ∧
        situation.takeAll source tokens = .ok (trees.foldl Situation.withTree situation)

section Reads

variable {source : Source}

/-- Phrases that are read one by one are read one after the other. -/
theorem reads_of_forall {phrases : List Phrase}
    (hreads : ∀ phrase ∈ phrases, Reads source [phrase]) : Reads source phrases := by
  induction phrases with
  | nil =>
    intro situation tokens _ htokens
    obtain rfl : tokens = [] := by simpa [Phrase.allLexemes] using htokens
    exact ⟨[], rfl, rfl⟩
  | cons phrase phrases ih =>
    intro situation tokens hadmits htokens
    obtain ⟨hhead, htail⟩ := List.forall_mem_cons.1 hreads
    obtain ⟨first, rest, rfl, hfirst, hrest⟩ := List.map_eq_append_iff.1 htokens
    obtain ⟨trees, hcontent, htake⟩ := hhead situation first hadmits.head (by
      simpa [Phrase.allLexemes] using hfirst)
    obtain ⟨tree, rfl, htree⟩ : ∃ tree, trees = [tree] ∧ tree.content = phrase.content := by
      simpa [List.map_eq_singleton_iff] using hcontent
    obtain ⟨others, hothers, hagain⟩ :=
      ih htail (situation.withTree tree) rest (hadmits.tail tree) hrest
    refine ⟨tree :: others, by simp [htree, hothers], ?_⟩
    rw [Situation.takeAll_append, htake]
    exact hagain

/-- Children join their list in the order in which they are read. -/
theorem foldl_withTree_inside (frame : Frame) (outer : List Frame) (reversed : List Tree)
    (trees : List Tree) :
    ∃ full : Frame, trees.foldl Situation.withTree (.inside frame outer reversed) =
        .inside full outer reversed ∧
      full.closed = .node frame.kind frame.label frame.span (frame.reversed.reverse ++ trees) := by
  induction trees generalizing frame with
  | nil => exact ⟨frame, rfl, by simp [Frame.closed]⟩
  | cons tree trees ih =>
    obtain ⟨full, hfull, hclosed⟩ := ih (frame.withChild tree)
    exact ⟨full, hfull, by simp [hclosed, Frame.withChild]⟩

/-- A list is read when the phrases in it are. -/
theorem reads_list {kind : Kind} {text? : Option String} {items : List Phrase}
    (htext : ∀ text ∈ text?, IsQuoted text)
    (hfirst : text? = none → ∀ item ∈ items.head?, item.isString = false)
    (hitems : Reads source items) : Reads source [.list kind text? items] := by
  intro situation tokens hadmits htokens
  simp only [Phrase.allLexemes, Phrase.lexemes, List.append_nil] at htokens
  obtain ⟨parenthesis, afterOpening, rfl, hopening, hinner⟩ := List.map_eq_cons_iff.1 htokens
  obtain ⟨head, afterKind, rfl, hhead, hinner⟩ := List.map_eq_cons_iff.1 hinner
  obtain ⟨quoted, afterText, rfl, hquoted, hinner⟩ := List.map_eq_append_iff.1 hinner
  obtain ⟨children, last, rfl, hchildren, hlast⟩ := List.map_eq_append_iff.1 hinner
  obtain ⟨closing, rfl, hclosing⟩ : ∃ closing, last = [closing] ∧
      closing.lexeme = (.closing, ")") := by
    simpa [List.map_eq_singleton_iff] using hlast
  let frame : Frame := ⟨kind, Phrase.meaning? text?, head.span, [], text?.isNone⟩
  obtain ⟨trees, hcontent, htake⟩ :=
    hitems (.inside frame situation.frames situation.reversed) children
      (by simpa [Situation.Admits, frame] using hfirst) hchildren
  obtain ⟨full, hfull, hclosed⟩ :=
    foldl_withTree_inside frame situation.frames situation.reversed trees
  refine ⟨[full.closed], ?_, ?_⟩
  · simp [hclosed, frame, Tree.content_node, Phrase.content, Phrase.allContent_eq_map,
      hcontent]
  · rw [Situation.takeAll_cons, Situation.step_opening hadmits hopening, Except.bind,
      Situation.takeAll_cons, Situation.step_kind hhead, Except.bind, Situation.takeAll_append,
      Situation.takeAll_text htext hquoted, Except.bind, Situation.takeAll_append, htake, hfull,
      Except.bind, Situation.takeAll_cons, Situation.step_closing hclosing,
      Situation.close_eq_withTree hadmits]
    rfl

/-- Every valid phrase is read as the tree it denotes. -/
theorem Phrase.Valid.reads {phrase : Phrase} (hvalid : phrase.Valid) :
    Reads source [phrase] := by
  induction hvalid with
  | word hvalue =>
    intro situation tokens hadmits htokens
    obtain ⟨token, rfl, htoken⟩ : ∃ token, tokens = [token] ∧ token.lexeme = _ := by
      simpa [Phrase.allLexemes, Phrase.lexemes, List.map_eq_singleton_iff] using htokens
    cases situation with
    | between reversed => simp [Situation.Admits, Phrase.isList] at hadmits
    | opened outer reversed => simp [Situation.Admits] at hadmits
    | inside frame outer reversed =>
      obtain ⟨tree, hcontent, hstep⟩ := Situation.step_word hvalue htoken
      exact ⟨[tree], by simp [hcontent, Phrase.content], by
        rw [Situation.takeAll_cons, hstep]
        rfl⟩
  | string hvalue =>
    intro situation tokens hadmits htokens
    obtain ⟨token, rfl, htoken⟩ : ∃ token, tokens = [token] ∧ token.lexeme = _ := by
      simpa [Phrase.allLexemes, Phrase.lexemes, List.map_eq_singleton_iff] using htokens
    cases situation with
    | between reversed => simp [Situation.Admits, Phrase.isList] at hadmits
    | opened outer reversed => simp [Situation.Admits] at hadmits
    | inside frame outer reversed =>
      have hfresh : frame.fresh = false := by
        simpa [Situation.Admits, Phrase.isString] using hadmits
      obtain ⟨tree, hcontent, hstep⟩ := Situation.step_string hfresh htoken
      exact ⟨[tree], by simp [hcontent, Phrase.content], by
        rw [Situation.takeAll_cons, hstep]
        rfl⟩
  | list htext hfirst _ ih => exact reads_list htext hfirst (reads_of_forall ih)

end Reads

end NescTree.Notation
