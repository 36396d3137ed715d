import Mathlib.Data.List.Perm.Basic
import NescTree.Proofs.Render.Parts
import NescTree.Proofs.Render.Writing

/-!
# Texts woven into the output

A template is a text with slots for the texts of nodes.  Whether a program writes each of
some texts once is said by a template that has one slot for each of them, and that gives
what the program writes whatever the texts are.  Stated once for each way of putting
programs together, this shows of a rule that it neither loses nor repeats a text.
-/

namespace NescTree.Render

/-- A node's text and what kind of node it is the text of. -/
abbrev NodeText := Kind × String

abbrev Renaming := Kind → String → String

/-- A part of a template: a fixed text, or a slot for the text of a node. -/
inductive Piece where
  | fixed (text : List Char)
  | slot (text : NodeText)
  deriving DecidableEq, Repr

namespace Piece

def fill (rename : Renaming) : Piece → List Char
  | .fixed text => text
  | .slot (kind, text) => (rename kind text).toList

def text? : Piece → Option NodeText
  | .fixed _ => none
  | .slot text => some text

end Piece

def filled (rename : Renaming) (template : List Piece) : List Char :=
  template.flatMap (Piece.fill rename)

def slots (template : List Piece) : List NodeText := template.filterMap Piece.text?

section Templates

variable {rename : Renaming} {template other : List Piece}

@[simp]
theorem filled_append : filled rename (template ++ other) =
    filled rename template ++ filled rename other := by
  simp [filled]

@[simp]
theorem slots_append : slots (template ++ other) = slots template ++ slots other := by
  simp [slots]

@[simp]
theorem filled_nil : filled rename [] = [] := rfl

@[simp]
theorem filled_cons {piece : Piece} : filled rename (piece :: template) =
    piece.fill rename ++ filled rename template := by
  simp [filled]

@[simp]
theorem slots_nil : slots [] = [] := rfl

@[simp]
theorem slots_fixed_cons {text : List Char} : slots (.fixed text :: template) = slots template :=
  rfl

end Templates

mutual

def renamed (rename : Renaming) : Tree → Tree
  | .node kind label span children =>
    .node kind ((kind.textOr label).map (rename kind)) span (allRenamed rename children)

def allRenamed (rename : Renaming) : List Tree → List Tree
  | [] => []
  | tree :: trees => renamed rename tree :: allRenamed rename trees

end

section Renamed

theorem allRenamed_eq_map (rename : Renaming) (trees : List Tree) :
    allRenamed rename trees = trees.map (renamed rename) := by
  induction trees with
  | nil => rfl
  | cons tree trees ih => rw [allRenamed, ih, List.map_cons]

@[simp]
theorem kind_renamed (rename : Renaming) (tree : Tree) :
    (renamed rename tree).kind = tree.kind := by
  cases tree
  rfl

theorem text_renamed (rename : Renaming) (tree : Tree) :
    (renamed rename tree).text = tree.text.map (rename tree.kind) := by
  obtain ⟨kind, label, span, children⟩ := tree
  rw [renamed, Tree.text, Tree.text, Tree.kind]
  cases label with
  | some text => rfl
  | none => cases hspelling : kind.spelling? <;> simp [Kind.textOr, hspelling]

/-- Keeping every text keeps the content of a tree. -/
theorem content_renamed_id (tree : Tree) :
    (renamed (fun _ text => text) tree).content = tree.content := by
  induction tree using Tree.inductionOn with
  | node kind label span children ih =>
    have hchildren : (children.map (renamed fun _ text => text)).map Tree.content =
        children.map Tree.content := by
      rw [List.map_map]
      exact List.map_congr_left ih
    rw [renamed, allRenamed_eq_map, Tree.content_node, Tree.content_node, hchildren,
      Option.map_id', Tree.textOr_textOr]

end Renamed

/-- Programs for all renamings, and the texts that they write once each, in some order. -/
def Weaves (doc : Renaming → Doc) (texts : List NodeText) : Prop :=
  ∀ state : State, state.headers = .emitting → state.declarators ≠ [] →
    ∃ template, (slots template).Perm texts ∧
      ∀ rename, (doc rename).Writes state (filled rename template)

namespace Weaves

variable {doc : Renaming → Doc} {docs : Renaming → List Doc} {texts more : List NodeText}

theorem perm (hdoc : Weaves doc texts) (hperm : texts.Perm more) : Weaves doc more := by
  intro state hheaders hdeclarators
  obtain ⟨template, hslots, hwrites⟩ := hdoc state hheaders hdeclarators
  exact ⟨template, hslots.trans hperm, hwrites⟩

section Pieces

/-- A program that writes a fixed text in every state. -/
theorem fixed {doc : Doc} {text : State → List Char}
    (hdoc : ∀ state, doc.Writes state (text state)) : Weaves (fun _ => doc) [] := by
  intro state _ _
  refine ⟨[.fixed (text state)], .nil, fun rename => ?_⟩
  simpa [Piece.fill] using hdoc state

theorem nothing : Weaves (fun _ => .nothing) [] := fixed fun _ => .nothing

theorem literal (text : String) : Weaves (fun _ => .write (some text)) [] :=
  fixed fun _ => .literal text

theorem margin : Weaves (fun _ => .margin) [] := fixed fun _ => .margin

theorem report (record : Record) : Weaves (fun _ => .report record) [] :=
  fixed fun _ => .report record

theorem text {tree : Tree} {own : String} (htext : tree.text = some own) :
    Weaves (fun rename => .write (renamed rename tree).text) [(tree.kind, own)] := by
  intro state _ _
  refine ⟨[.slot (tree.kind, own)], .refl _, fun rename => ?_⟩
  have hwrites : (Doc.write (renamed rename tree).text).Writes state
      (rename tree.kind own).toList :=
    .textOf (by rw [text_renamed, htext, Option.map_some])
  simpa [Piece.fill] using hwrites

end Pieces

section Sequences

theorem append {first second : Renaming → Doc} (hfirst : Weaves first texts)
    (hsecond : Weaves second more) :
    Weaves (fun rename => .append (first rename) (second rename)) (texts ++ more) := by
  intro state hheaders hdeclarators
  obtain ⟨template, hslots, hwrites⟩ := hfirst state hheaders hdeclarators
  obtain ⟨other, hotherSlots, hotherWrites⟩ := hsecond state hheaders hdeclarators
  refine ⟨template ++ other, ?_, fun rename => ?_⟩
  · rw [slots_append]
    exact hslots.append hotherSlots
  · rw [filled_append]
    exact .append (hwrites rename) (hotherWrites rename)

theorem nil : Weaves (fun _ => .seq []) [] := nothing

theorem cons (hdoc : Weaves doc texts) (hdocs : Weaves (fun rename => .seq (docs rename)) more) :
    Weaves (fun rename => .seq (doc rename :: docs rename)) (texts ++ more) :=
  append hdoc hdocs

/-- A program that writes no text of a node, and what follows it. -/
theorem own (hdoc : Weaves doc []) (hdocs : Weaves (fun rename => .seq (docs rename)) texts) :
    Weaves (fun rename => .seq (doc rename :: docs rename)) texts :=
  append hdoc hdocs

/-- The last program that writes texts of nodes, and what follows it. -/
theorem final (hdoc : Weaves doc texts) (hdocs : Weaves (fun rename => .seq (docs rename)) []) :
    Weaves (fun rename => .seq (doc rename :: docs rename)) texts := by
  have hboth := append hdoc hdocs
  rwa [List.append_nil] at hboth

theorem lit {text : String} (hdocs : Weaves (fun rename => .seq (docs rename)) texts) :
    Weaves (fun rename => .seq (.write (some text) :: docs rename)) texts :=
  own (literal text) hdocs

end Sequences

section Scopes

/-- A scope can be entered in every state with a declarator count, and keeps one. -/
theorem exists_enter (scope : Scope) {state : State} (hdeclarators : state.declarators ≠ []) :
    ∃ entered, scope.enter state = .ok entered ∧ entered.state.headers = state.headers ∧
      entered.state.declarators ≠ [] := by
  obtain ⟨count, outer, hcounts⟩ := List.exists_cons_of_ne_nil hdeclarators
  cases scope with
  | indented amount => exact ⟨_, rfl, rfl, hdeclarators⟩
  | parentheses enabled => exact ⟨_, rfl, rfl, hdeclarators⟩
  | operator => exact ⟨_, rfl, rfl, hdeclarators⟩
  | parameters => exact ⟨_, rfl, rfl, List.cons_ne_nil _ _⟩
  | declarator =>
    simp [Scope.enter, State.countDeclarators, hcounts, bind, Except.bind, pure, Except.pure]
  | nestedDeclarator =>
    simp [Scope.enter, State.inDeclarator, State.countDeclarators, hcounts, bind, Except.bind,
      pure, Except.pure]

theorem within {scope : Scope} (hdoc : Weaves doc texts) :
    Weaves (fun rename => .within scope (doc rename)) texts := by
  intro state hheaders hdeclarators
  obtain ⟨entered, henter, hinner, hcounts⟩ := exists_enter scope hdeclarators
  obtain ⟨template, hslots, hwrites⟩ := hdoc entered.state (hinner.trans hheaders) hcounts
  refine ⟨.fixed entered.opening.toList :: (template ++ [.fixed entered.undo.closing.toList]),
    ?_, fun rename => ?_⟩
  · simpa using hslots
  · have hwithin := Doc.Writes.within henter (hwrites rename)
    simpa [Piece.fill] using hwithin

theorem unlessSkipping (hdoc : Weaves doc texts) :
    Weaves (fun rename => .unlessSkipping (doc rename)) texts := by
  intro state hheaders hdeclarators
  obtain ⟨template, hslots, hwrites⟩ := hdoc state hheaders hdeclarators
  exact ⟨template, hslots, fun rename => (hwrites rename).unlessSkipping hheaders⟩

/-- Between braces, one level deeper. -/
theorem block (hdoc : Weaves doc texts) :
    Weaves (fun rename => block (doc rename)) texts :=
  .lit (.final (.within hdoc) (.own .margin (.lit .nil)))

end Scopes

section Choices

/-- A choice by the kind of a child, which no renaming changes. -/
theorem ifKind {child : Tree} {kind : Kind} {index : Nat} {first second : Renaming → Doc}
    (hfirst : child.kind = kind → Weaves first texts)
    (hsecond : child.kind ≠ kind → Weaves second texts) :
    Weaves (fun rename => if ((view (renamed rename child)).toPart index).kind = kind
      then first rename else second rename) texts := by
  simp only [kind_toPart, kind_renamed]
  by_cases hkind : child.kind = kind
  · simpa only [if_pos hkind] using hfirst hkind
  · simpa only [if_neg hkind] using hsecond hkind

end Choices

section Children

variable {children : List Tree}

theorem rule {tree : Tree} (hrule : Weaves (fun rename => (view (renamed rename tree)).doc) texts) :
    Weaves (fun rename => treeDoc (renamed rename tree)) texts := by
  intro state hheaders hdeclarators
  obtain ⟨template, hslots, hwrites⟩ := hrule state hheaders hdeclarators
  exact ⟨template, hslots, fun rename => .rule (hwrites rename)⟩

theorem descend (hdoc : Weaves doc texts) (index : Nat) :
    Weaves (fun rename => .descend index (doc rename)) texts := by
  intro state hheaders hdeclarators
  obtain ⟨template, hslots, hwrites⟩ := hdoc state hheaders hdeclarators
  refine ⟨template, hslots, fun rename => ?_⟩
  exact ⟨(hwrites rename).fault, (hwrites rename).restored, (hwrites rename).written⟩

theorem child {child : Tree} (hchild : Weaves (fun rename => treeDoc (renamed rename child)) texts)
    (index : Nat) :
    Weaves (fun rename => ((view (renamed rename child)).toPart index).doc) texts :=
  hchild.descend index

/-- The text of a child. -/
theorem partText {child : Tree} {own : String} (htext : child.text = some own) (index : Nat) :
    Weaves (fun rename => .write ((view (renamed rename child)).toPart index).text)
      [(child.kind, own)] := by
  simp only [text_toPart]
  exact text htext

/-- Children that are rendered one after the other. -/
theorem each {render : Part → Doc} {textsOf : Tree → List NodeText} (start : Nat)
    (hrender : ∀ child ∈ children, ∀ index,
      Weaves (fun rename => render ((view (renamed rename child)).toPart index)) (textsOf child)) :
    Weaves (fun rename => .seq ((viewParts start (allRenamed rename children)).map render))
      (children.flatMap textsOf) := by
  induction children generalizing start with
  | nil => exact nil
  | cons first children ih =>
    obtain ⟨hfirst, hrest⟩ := List.forall_mem_cons.1 hrender
    exact cons (hfirst start) (ih (start + 1) hrest)

/-- Children with a text between any two of them. -/
theorem joinedEach {separator : String} {textsOf : Tree → List NodeText} (start : Nat)
    (hchildren : ∀ child ∈ children,
      Weaves (fun rename => treeDoc (renamed rename child)) (textsOf child)) :
    Weaves (fun rename =>
        .joined separator ((viewParts start (allRenamed rename children)).map Part.doc))
      (children.flatMap textsOf) := by
  induction children generalizing start with
  | nil => exact nothing
  | cons first children ih =>
    obtain ⟨hfirst, hrest⟩ := List.forall_mem_cons.1 hchildren
    cases children with
    | nil =>
      rw [List.flatMap_cons, List.flatMap_nil, List.append_nil]
      exact hfirst.child start
    | cons second children =>
      have hmore := append (literal separator) (ih (start + 1) hrest)
      exact append (hfirst.child start) hmore

end Children

end Weaves

end NescTree.Render
