import NescTree.Proofs.Render.Weaving

/-!
# No text is lost or written twice

Rules reach for the children of a node by their place, render them in another order, or
write the text of a child without rendering it.  In a tree whose nodes have the children
that their kinds call for, the text of every node is nevertheless written once.
-/

namespace NescTree.Render

section Shapes

def isLeaf : Kind → Bool
  | .identifier | .constant | .stringLiteral | .rawIdentifier => true
  | _ => false

def isHeadingWord : Kind → Bool
  | .moduleWord | .configurationWord | .genericWord => true
  | _ => false

/-- Whether a node has the text that its kind calls for: leaves have one of their own, other
nodes the spelling of their kind. -/
def HasProperText (kind : Kind) (label : Option String) : Prop :=
  if isLeaf kind then label.isSome = true else kind.textOr label = kind.spelling?

/-- Whether a node has the children that its kind calls for.  Wirings are not included,
whose operators have endpoints as their children. -/
def HasShape (kind : Kind) (children : List Tree) : Prop :=
  match kind with
  | .identifier | .constant | .stringLiteral | .rawIdentifier | .keyword _ | .continueJump
  | .breakJump | .plusPlus | .minusMinus | .moduleWord | .configurationWord | .genericWord
  | .leftArrow => children = []
  | .statement | .returnJump | .forClause _ | .arrayModifier => children.length ≤ 1
  | .parameterModifier | .defaultLabel | .atomic | .gotoJump | .unary _ | .dereference
  | .elementSelection | .dot | .arrow => children.length = 1
  | .caseLabel | .switch | .whileLoop | .doLoop | .binary _ | .vaArg => children.length = 2
  | .conditional => children.length = 3
  | .forLoop => children.length = 4
  | .ifElse => children.length = 2 ∨ children.length = 3
  | .enumerator | .componentDeclaration | .componentInstantiation =>
    children.length = 1 ∨ children.length = 2
  | .declaration | .initDeclarator | .cast => children ≠ []
  | .labeled => ∃ label statement, children = [label, statement] ∧ isLeaf label.kind = true
  | .interfaceType => ∃ name types, children = name :: types ∧ isLeaf name.kind = true
  | .interface => ∃ first rest, children = first :: rest ∧
    (first.kind = .interfaceType ∧ rest.length ≤ 1 ∨ isLeaf first.kind = true)
  | .componentKind => ∀ word ∈ children, isHeadingWord word.kind = true
  | .componentDefinition => ∃ heading name body more, children = heading :: name :: body :: more ∧
    (more = [] ∨
      (∃ last, more = [last] ∧
        (last.kind = .implementation ∨ last.kind = .componentParameterList)) ∨
      ∃ code parameters, more = [code, parameters] ∧ code.kind = .implementation)
  | .connection | .lineDirective => False
  | _ => True

def isWiring : Kind → Bool
  | .binary .assign | .arrow | .leftArrow => true
  | _ => false

/-- Trees without line directives in which every node has its proper text and children. -/
inductive IsComplete : Tree → Prop where
  | node {kind : Kind} {label : Option String} {span : Option Span} {children : List Tree}
      (htext : HasProperText kind label) (hshape : HasShape kind children)
      (hchildren : ∀ child ∈ children, IsComplete child) :
      IsComplete (.node kind label span children)
  | connection {label operatorLabel : Option String} {span operatorSpan : Option Span}
      {operator : Kind} {endpoints : List Tree} {left : Tree}
      (htext : HasProperText .connection label) (hoperator : isWiring operator = true)
      (hoperatorText : HasProperText operator operatorLabel)
      (hendpoints : ∀ endpoint ∈ endpoints, IsComplete endpoint) (hleft : IsComplete left) :
      IsComplete (.node .connection label span
        [.node operator operatorLabel operatorSpan endpoints, left])

end Shapes

section Texts

/-- The text that a node has to have written for it.  The keyword of an enumeration is
always written as such. -/
def writtenText? (node : Tree) : Option NodeText :=
  if node.kind = .enum then none else node.text.map fun text => (node.kind, text)

def writtenTexts (tree : Tree) : List NodeText := tree.walk.filterMap writtenText?

theorem filterMap_walkAll (trees : List Tree) :
    (Tree.walkAll trees).filterMap writtenText? = trees.flatMap writtenTexts := by
  induction trees with
  | nil => rfl
  | cons tree trees ih =>
    rw [Tree.walkAll, List.filterMap_append, ih, List.flatMap_cons, writtenTexts]

variable {kind : Kind} {label : Option String} {span : Option Span} {children : List Tree}

theorem writtenTexts_of_none (htext : kind.textOr label = none) :
    writtenTexts (.node kind label span children) = children.flatMap writtenTexts := by
  have hown : writtenText? (.node kind label span children) = none := by
    simp [writtenText?, Tree.text, htext]
  rw [writtenTexts, Tree.walk, List.filterMap_cons_none hown, filterMap_walkAll]

theorem writtenTexts_enum :
    writtenTexts (.node .enum label span children) = children.flatMap writtenTexts := by
  rw [writtenTexts, Tree.walk, List.filterMap_cons_none rfl, filterMap_walkAll]

theorem writtenTexts_of_some {text : String} (htext : kind.textOr label = some text)
    (hkind : kind ≠ .enum) :
    writtenTexts (.node kind label span children) =
      (kind, text) :: children.flatMap writtenTexts := by
  have hown : writtenText? (.node kind label span children) = some (kind, text) := by
    simp [writtenText?, Tree.text, htext, hkind]
  rw [writtenTexts, Tree.walk, List.filterMap_cons_some hown, filterMap_walkAll]

theorem HasProperText.of_isLeaf (htext : HasProperText kind label) (hkind : isLeaf kind = true) :
    ∃ text, kind.textOr label = some text := by
  rw [HasProperText, if_pos hkind, Option.isSome_iff_exists] at htext
  obtain ⟨text, rfl⟩ := htext
  exact ⟨text, rfl⟩

theorem HasProperText.of_not_isLeaf (htext : HasProperText kind label)
    (hkind : isLeaf kind = false) : kind.textOr label = kind.spelling? := by
  rwa [HasProperText, if_neg (by simp [hkind])] at htext

/-- Statements and the parts of components have no text of their own. -/
theorem HasProperText.eq_none (htext : HasProperText kind label)
    (hfamily : kind.family? = some .statement ∨ kind.family? = some .assembly) :
    kind.textOr label = none := by
  have hnone : kind.spelling? = none ∧ isLeaf kind = false := by
    cases kind <;> simp_all [Kind.family?, Kind.spelling?, isLeaf]
  exact (htext.of_not_isLeaf hnone.2).trans hnone.1

theorem HasShape.eq_nil (hshape : HasShape kind children)
    (hkind : isLeaf kind = true ∨ isHeadingWord kind = true) : children = [] := by
  cases kind with
  | identifier | constant | stringLiteral | rawIdentifier | moduleWord | configurationWord
  | genericWord => exact hshape
  | _ => simp [isLeaf, isHeadingWord] at hkind

theorem HasProperText.exists_text (htext : HasProperText kind label)
    (hkind : isLeaf kind = true ∨ isHeadingWord kind = true) :
    ∃ text, kind.textOr label = some text := by
  obtain hleaf | hword := hkind
  · exact htext.of_isLeaf hleaf
  · cases kind with
    | moduleWord | configurationWord | genericWord => exact ⟨_, htext⟩
    | _ => cases hword

/-- A node that is nothing but its text. -/
theorem IsComplete.exists_text {tree : Tree} (htree : IsComplete tree)
    (hkind : isLeaf tree.kind = true ∨ isHeadingWord tree.kind = true) :
    ∃ text, tree.text = some text ∧ writtenTexts tree = [(tree.kind, text)] := by
  cases htree with
  | @node kind label span children htext hshape =>
    obtain ⟨text, hown⟩ := htext.exists_text hkind
    have henum : kind ≠ .enum := by
      rintro rfl
      simp [isLeaf, isHeadingWord] at hkind
    refine ⟨text, hown, ?_⟩
    rw [writtenTexts_of_some hown henum, hshape.eq_nil hkind]
    rfl
  | connection => simp [isLeaf, isHeadingWord] at hkind

end Texts

/-- Whether a tree can be rendered so that each of its texts is written once. -/
def TreeWeaves (tree : Tree) : Prop :=
  Weaves (fun rename => treeDoc (renamed rename tree)) (writtenTexts tree)

/-- The two children of a node, each with its own texts. -/
theorem exists_pair_weaves {children : List Tree} (hlength : children.length = 2)
    (hchildren : ∀ child ∈ children, TreeWeaves child) :
    ∃ first second, children = [first, second] ∧ TreeWeaves first ∧ TreeWeaves second ∧
      children.flatMap writtenTexts = writtenTexts first ++ writtenTexts second := by
  obtain ⟨first, second, rfl⟩ := List.length_eq_two.1 hlength
  obtain ⟨hfirst, hrest⟩ := List.forall_mem_cons.1 hchildren
  rw [List.forall_mem_singleton] at hrest
  refine ⟨first, second, rfl, hfirst, hrest, ?_⟩
  rw [List.flatMap_cons, List.flatMap_singleton]

namespace Weaves

variable {children : List Tree} {child : Tree}

theorem all (hchildren : ∀ child ∈ children, TreeWeaves child) (start : Nat) :
    Weaves (fun rename => .seq ((viewParts start (allRenamed rename children)).map Part.doc))
      (children.flatMap writtenTexts) :=
  each start fun child hmem index => (hchildren child hmem).child index

/-- The text of the node itself. -/
theorem ownText {kind : Kind} {label : Option String} {span : Option Span} {text : String}
    (htext : kind.textOr label = some text) :
    Weaves (fun rename => .write (view (renamed rename (.node kind label span children))).text)
      [(kind, text)] := by
  simp only [text_view]
  exact @Weaves.text (.node kind label span children) text htext

theorem commaSeparated (hchildren : ∀ child ∈ children, TreeWeaves child) (start : Nat)
    (separator : String) :
    Weaves (fun rename =>
        .joined separator ((viewParts start (allRenamed rename children)).map Part.doc))
      (children.flatMap writtenTexts) :=
  joinedEach start hchildren

end Weaves

section Statements

variable {child : Tree}

theorem TreeWeaves.topExpression (hchild : TreeWeaves child) (index : Nat) :
    Weaves (fun rename => topExpression ((view (renamed rename child)).toPart index))
      (writtenTexts child) :=
  .within (hchild.child index)

theorem TreeWeaves.header (hchild : TreeWeaves child) (keyword : String) (index : Nat) :
    Weaves (fun rename => header keyword ((view (renamed rename child)).toPart index))
      (writtenTexts child) :=
  .own .margin (.lit (.lit (.final (hchild.topExpression index) (.lit .nil))))

theorem TreeWeaves.body (hchild : TreeWeaves child) (index : Nat) :
    Weaves (fun rename => body ((view (renamed rename child)).toPart index))
      (writtenTexts child) :=
  .ifKind (fun _ => hchild.child index) fun _ => .within (hchild.child index)

variable {kind : Kind} {label : Option String} {span : Option Span} {children : List Tree}

theorem weaves_statement (hfamily : kind.family? = some .statement)
    (htext : HasProperText kind label) (hshape : HasShape kind children)
    (hcomplete : ∀ child ∈ children, IsComplete child)
    (hchildren : ∀ child ∈ children, TreeWeaves child) :
    Weaves (fun rename => statement (view (renamed rename (.node kind label span children))))
      (writtenTexts (.node kind label span children)) := by
  rw [writtenTexts_of_none (htext.eq_none (.inl hfamily))]
  cases kind with
  | statement =>
    match children, hshape with
    | [], _ => exact .own .margin (.own .nothing (.lit .nil))
    | [expression], _ =>
      simp only [List.forall_mem_singleton, List.flatMap_singleton] at hchildren ⊢
      exact .own .margin (.final (hchildren.topExpression 0) (.lit .nil))
  | compound => exact .own .margin (.final (.block (.all hchildren 0)) .nil)
  | labeled =>
    obtain ⟨target, statement, rfl, hleaf⟩ := hshape
    obtain ⟨htarget, -⟩ := List.forall_mem_cons.1 hcomplete
    obtain ⟨-, hstatement⟩ := List.forall_mem_cons.1 hchildren
    obtain ⟨text, hown, htexts⟩ := htarget.exists_text (.inl hleaf)
    rw [List.forall_mem_singleton] at hstatement
    rw [List.flatMap_cons, List.flatMap_singleton, htexts]
    exact .cons (.within (.own .margin (.final (.partText hown 0) (.lit .nil))))
      (.final (hstatement.child 1) .nil)
  | caseLabel =>
    obtain ⟨value, statement, rfl, hvalue, hstatement, htexts⟩ :=
      exists_pair_weaves hshape hchildren
    rw [htexts]
    exact .cons (.within (.own .margin (.lit (.final (hvalue.child 0) (.lit .nil)))))
      (.final (hstatement.child 1) .nil)
  | defaultLabel =>
    obtain ⟨statement, rfl⟩ := List.length_eq_one_iff.1 hshape
    simp only [List.forall_mem_singleton, List.flatMap_singleton] at hchildren ⊢
    exact .own (.within (.own .margin (.lit .nil))) (.final (hchildren.child 0) .nil)
  | atomic =>
    obtain ⟨statement, rfl⟩ := List.length_eq_one_iff.1 hshape
    simp only [List.forall_mem_singleton, List.flatMap_singleton] at hchildren ⊢
    exact .own .margin (.lit (.final (hchildren.body 0) .nil))
  | ifElse =>
    obtain htwo | hthree := hshape
    · obtain ⟨condition, first, rfl, hcondition, hfirst, htexts⟩ :=
        exists_pair_weaves htwo hchildren
      rw [htexts]
      exact .cons (hcondition.header "if" 0) (.final (hfirst.body 1) (.own .nothing .nil))
    · obtain ⟨condition, first, second, rfl⟩ := List.length_eq_three.1 hthree
      simp only [List.forall_mem_cons, List.flatMap_cons, List.flatMap_nil,
        List.append_nil] at hchildren ⊢
      exact .cons (hchildren.1.header "if" 0) (.cons (hchildren.2.1.body 1)
        (.final (.own .margin (.lit (.final (hchildren.2.2.1.body 2) .nil))) .nil))
  | switch =>
    obtain ⟨value, statement, rfl, hvalue, hstatement, htexts⟩ :=
      exists_pair_weaves hshape hchildren
    rw [htexts]
    exact .cons (hvalue.header "switch" 0) (.final (hstatement.body 1) .nil)
  | whileLoop =>
    obtain ⟨condition, statement, rfl, hcondition, hstatement, htexts⟩ :=
      exists_pair_weaves hshape hchildren
    rw [htexts]
    exact .cons (hcondition.header "while" 0) (.final (hstatement.body 1) .nil)
  | doLoop =>
    obtain ⟨statement, condition, rfl, hstatement, hcondition, htexts⟩ :=
      exists_pair_weaves hshape hchildren
    rw [htexts]
    exact .own .margin (.lit (.cons (hstatement.body 0) (.own .margin (.lit
      (.final (hcondition.topExpression 1) (.lit .nil))))))
  | forLoop =>
    match children, hshape with
    | [first, second, third, statement], _ =>
      have hclauses : ∀ clause ∈ [first, second, third], TreeWeaves clause :=
        fun clause hmem => hchildren clause (List.mem_append_left [statement] hmem)
      have htexts : [first, second, third, statement].flatMap writtenTexts =
          [first, second, third].flatMap writtenTexts ++ writtenTexts statement := by simp
      rw [htexts]
      exact .own .margin (.lit (.cons (.commaSeparated hclauses 0 "; ") (.lit
        (.final ((hchildren statement (by simp)).body 3) .nil))))
  | forClause clause =>
    match children, hshape with
    | [], _ => exact .nothing
    | [expression], _ =>
      simp only [List.forall_mem_singleton, List.flatMap_singleton] at hchildren ⊢
      exact hchildren.topExpression 0
  | gotoJump =>
    obtain ⟨target, rfl⟩ := List.length_eq_one_iff.1 hshape
    simp only [List.forall_mem_singleton, List.flatMap_singleton] at hchildren ⊢
    exact .own .margin (.lit (.final (hchildren.child 0) (.lit .nil)))
  | continueJump =>
    obtain rfl : children = [] := hshape
    exact .own .margin (.lit .nil)
  | breakJump =>
    obtain rfl : children = [] := hshape
    exact .own .margin (.lit .nil)
  | returnJump =>
    match children, hshape with
    | [], _ => exact .own .margin (.lit (.own .nothing (.lit .nil)))
    | [expression], _ =>
      simp only [List.forall_mem_singleton, List.flatMap_singleton] at hchildren ⊢
      exact .own .margin (.lit (.final (hchildren.child 0) (.lit .nil)))
  | _ => cases hfamily

end Statements

section Expressions

variable {kind : Kind} {label : Option String} {span : Option Span} {children : List Tree}

theorem weaves_expression (hfamily : kind.family? = some .expression)
    (htext : HasProperText kind label) (hshape : HasShape kind children)
    (hchildren : ∀ child ∈ children, TreeWeaves child) :
    Weaves (fun rename => expression (view (renamed rename (.node kind label span children))))
      (writtenTexts (.node kind label span children)) := by
  cases kind with
  | identifier | constant | stringLiteral =>
    obtain rfl : children = [] := hshape
    obtain ⟨text, hown⟩ := htext.of_isLeaf rfl
    rw [writtenTexts_of_some hown (by nofun)]
    exact .ownText hown
  | binary operator =>
    obtain ⟨left, right, rfl, hleft, hright, htexts⟩ :=
      exists_pair_weaves hshape hchildren
    rw [writtenTexts_of_some htext (by nofun), htexts]
    refine .perm (.within (.cons (hleft.child 0) (.lit (.cons (.ownText htext)
      (.lit (.final (hright.child 1) .nil)))))) ?_
    exact List.perm_middle
  | conditional =>
    obtain ⟨condition, first, second, rfl⟩ := List.length_eq_three.1 hshape
    rw [writtenTexts_of_none htext]
    simp only [List.forall_mem_cons, List.flatMap_cons, List.flatMap_nil,
      List.append_nil] at hchildren ⊢
    exact .within (.cons (hchildren.1.child 0) (.lit (.cons (hchildren.2.1.child 1) (.lit
      (.final (hchildren.2.2.1.child 2) .nil)))))
  | unary operator =>
    obtain ⟨inner, rfl⟩ := List.length_eq_one_iff.1 hshape
    rw [writtenTexts_of_none htext]
    simp only [List.forall_mem_singleton, List.flatMap_singleton] at hchildren ⊢
    exact .lit (.final (.within (hchildren.child 0)) .nil)
  | dereference =>
    obtain ⟨inner, rfl⟩ := List.length_eq_one_iff.1 hshape
    rw [writtenTexts_of_none htext]
    simp only [List.forall_mem_singleton, List.flatMap_singleton] at hchildren ⊢
    exact .lit (.final (.within (hchildren.child 0)) (.lit .nil))
  | postfixChain =>
    rw [writtenTexts_of_none htext]
    exact .within (.all hchildren 0)
  | argumentList =>
    rw [writtenTexts_of_none htext]
    exact .lit (.final (.commaSeparated hchildren 0 ", ") (.lit .nil))
  | elementSelection =>
    obtain ⟨index, rfl⟩ := List.length_eq_one_iff.1 hshape
    rw [writtenTexts_of_none htext]
    simp only [List.forall_mem_singleton, List.flatMap_singleton] at hchildren ⊢
    exact .lit (.final (hchildren.child 0) (.lit .nil))
  | dot | arrow =>
    obtain ⟨name, rfl⟩ := List.length_eq_one_iff.1 hshape
    rw [writtenTexts_of_some htext (by nofun)]
    simp only [List.forall_mem_singleton, List.flatMap_singleton] at hchildren ⊢
    exact .cons (.ownText htext) (.final (hchildren.child 0) .nil)
  | plusPlus | minusMinus =>
    obtain rfl : children = [] := hshape
    rw [writtenTexts_of_some htext (by nofun)]
    exact .ownText htext
  | sizeofType | sizeofExpression =>
    rw [writtenTexts_of_none htext]
    exact .lit (.final (.within (.all hchildren 0)) (.lit .nil))
  | cast =>
    obtain ⟨inner, type, rfl⟩ := List.exists_cons_of_ne_nil hshape
    obtain ⟨hinner, htype⟩ := List.forall_mem_cons.1 hchildren
    rw [writtenTexts_of_none htext, List.flatMap_cons]
    refine .perm (.lit (.cons (.all htype 1) (.lit (.final (.within (hinner.child 0))
      (.lit .nil))))) ?_
    exact List.perm_append_comm
  | vaArg =>
    obtain ⟨list, type, rfl, hlist, htype, htexts⟩ :=
      exists_pair_weaves hshape hchildren
    rw [writtenTexts_of_none htext, htexts]
    exact .lit (.final (.within (.cons (hlist.child 0) (.lit
      (.final (htype.child 1) .nil)))) (.lit .nil))
  | _ => cases hfamily

end Expressions

section Declarations

variable {kind : Kind} {label : Option String} {span : Option Span} {children : List Tree}

/-- Children that are each followed by a space. -/
theorem Weaves.spaced (hchildren : ∀ child ∈ children, TreeWeaves child) :
    Weaves (fun rename => .seq (((viewParts 0 (allRenamed rename children)).map Part.doc).map
        fun doc => .seq [doc, " "])) (children.flatMap writtenTexts) := by
  simp only [List.map_map]
  exact .each 0 fun child hmem index => .final ((hchildren child hmem).child index) (.lit .nil)

theorem Weaves.specified (hchildren : ∀ child ∈ children, TreeWeaves child) :
    Weaves (fun rename => specified (view (renamed rename (.node kind label span children))))
      (children.flatMap writtenTexts) :=
  .each 0 fun child hmem index =>
    .ifKind (fun _ => .final ((hchildren child hmem).child index) (.lit .nil))
      fun _ => (hchildren child hmem).child index

section Types

variable {first : Tree} {rest : List Tree} {member : Kind} (rename : Renaming)

/-- The first child of a type is its name, or already a member. -/
theorem tagName_renamed :
    tagName (view (renamed rename (.node kind label span (first :: rest)))) member =
      if first.kind = member then .nothing
      else .seq [((view (renamed rename first)).toPart 0).doc, " "] := by
  rw [← kind_renamed rename first, ← kind_toPart (renamed rename first) 0]
  rfl

theorem members_renamed :
    members (view (renamed rename (.node kind label span (first :: rest)))) member =
      if first.kind = member then (viewParts 0 (allRenamed rename (first :: rest))).map Part.doc
      else (viewParts 1 (allRenamed rename rest)).map Part.doc := by
  rw [← kind_renamed rename first, ← kind_toPart (renamed rename first) 0]
  rfl

end Types

/-- The name of a type and its members, with something written around the members. -/
theorem Weaves.tagged {member : Kind} {around : List Doc → Doc}
    (haround : ∀ start (members : List Tree), (∀ child ∈ members, TreeWeaves child) →
      Weaves (fun rename => around ((viewParts start (allRenamed rename members)).map Part.doc))
        (members.flatMap writtenTexts))
    (hchildren : ∀ child ∈ children, TreeWeaves child) :
    Weaves (fun rename =>
        .seq [tagName (view (renamed rename (.node kind label span children))) member,
          match members (view (renamed rename (.node kind label span children))) member with
          | [] => .nothing
          | docs => around docs])
      (children.flatMap writtenTexts) := by
  cases children with
  | nil => exact .own .nothing (.own .nothing .nil)
  | cons first rest =>
    simp only [tagName_renamed, members_renamed]
    by_cases hkind : first.kind = member
    · simp only [if_pos hkind]
      exact .own .nothing (.final (haround 0 (first :: rest) hchildren) .nil)
    · simp only [if_neg hkind]
      obtain ⟨hfirst, hrest⟩ := List.forall_mem_cons.1 hchildren
      have hname : Weaves (fun rename =>
          .seq [((view (renamed rename first)).toPart 0).doc, " "]) (writtenTexts first) :=
        .final (hfirst.child 0) (.lit .nil)
      cases rest with
      | nil =>
        rw [List.flatMap_singleton]
        exact .final hname (.own .nothing .nil)
      | cons second rest =>
        exact .cons hname (.final (haround 1 (second :: rest) hrest) .nil)

theorem weaves_declaration (hfamily : kind.family? = some .declaration)
    (htext : HasProperText kind label) (hshape : HasShape kind children)
    (hchildren : ∀ child ∈ children, TreeWeaves child) :
    Weaves (fun rename => declaration (view (renamed rename (.node kind label span children))))
      (writtenTexts (.node kind label span children)) := by
  cases kind with
  | keyword word =>
    obtain rfl : children = [] := hshape
    rw [writtenTexts_of_some htext (by nofun)]
    exact .final (.ownText htext) (.lit .nil)
  | rawIdentifier =>
    obtain rfl : children = [] := hshape
    obtain ⟨text, hown⟩ := htext.of_isLeaf rfl
    rw [writtenTexts_of_some hown (by nofun)]
    exact .final (.ownText hown) (.lit .nil)
  | typeName =>
    rw [writtenTexts_of_none htext]
    exact .spaced hchildren
  | declaration =>
    obtain ⟨first, rest, rfl⟩ := List.exists_cons_of_ne_nil hshape
    rw [writtenTexts_of_none htext]
    exact .own .margin (.final (.specified hchildren)
      (.own (.ifKind (fun _ => .nothing) fun _ => .literal ";") (.lit .nil)))
  | aggregate tag =>
    rw [writtenTexts_of_some htext (by nofun)]
    exact .cons (.ownText htext) (.lit (.tagged (fun start _ hmembers =>
      .lit (.final (.within (.all hmembers start)) (.own .margin (.lit .nil)))) hchildren))
  | enum =>
    rw [writtenTexts_enum]
    exact .lit (.tagged (fun start _ hmembers =>
      .lit (.final (.commaSeparated hmembers start ", ") (.lit .nil))) hchildren)
  | enumerator =>
    rw [writtenTexts_of_none htext]
    obtain hone | htwo := hshape
    · obtain ⟨name, rfl⟩ := List.length_eq_one_iff.1 hone
      simp only [List.forall_mem_singleton, List.flatMap_singleton] at hchildren ⊢
      exact .final (hchildren.child 0) (.own .nothing .nil)
    · obtain ⟨name, value, rfl, hname, hvalue, htexts⟩ :=
        exists_pair_weaves htwo hchildren
      rw [htexts]
      exact .cons (hname.child 0)
        (.final (.lit (.final (hvalue.child 1) .nil)) .nil)
  | declaratorList =>
    rw [writtenTexts_of_none htext]
    exact .commaSeparated hchildren 0 ", "
  | initDeclarator =>
    rw [writtenTexts_of_none htext]
    match children, hshape with
    | [declarator], _ =>
      simp only [List.forall_mem_singleton, List.flatMap_singleton] at hchildren ⊢
      exact .final (hchildren.child 0) (.own .nothing .nil)
    | declarator :: value :: more, _ =>
      obtain ⟨hdeclarator, hvalues⟩ := List.forall_mem_cons.1 hchildren
      rw [List.flatMap_cons]
      exact .cons (hdeclarator.child 0) (.final (.lit (.final (.all hvalues 1) .nil)) .nil)
  | declarator =>
    rw [writtenTexts_of_none htext]
    exact .within (.spaced hchildren)
  | initializerList =>
    rw [writtenTexts_of_none htext]
    exact .lit (.final (.commaSeparated hchildren 0 ", ") (.lit .nil))
  | pointerQualifier =>
    rw [writtenTexts_of_none htext]
    exact .lit (.final (.all hchildren 0) .nil)
  | arrayModifier =>
    rw [writtenTexts_of_none htext]
    match children, hshape with
    | [], _ => exact .lit (.own .nothing (.lit .nil))
    | [size], _ =>
      simp only [List.forall_mem_singleton, List.flatMap_singleton] at hchildren ⊢
      exact .lit (.final (hchildren.child 0) (.lit .nil))
  | parameterModifier =>
    obtain ⟨list, rfl⟩ := List.length_eq_one_iff.1 hshape
    rw [writtenTexts_of_none htext]
    simp only [List.forall_mem_singleton, List.flatMap_singleton] at hchildren ⊢
    exact .lit (.final (hchildren.child 0) (.lit .nil))
  | parameterList =>
    rw [writtenTexts_of_none htext]
    exact .within (.commaSeparated hchildren 0 ", ")
  | parameter =>
    rw [writtenTexts_of_none htext]
    exact .specified hchildren
  | functionDefinition =>
    rw [writtenTexts_of_none htext]
    exact .each 0 fun child hmem index =>
      .ifKind (fun _ => .lit (.final ((hchildren child hmem).child index) .nil))
        fun _ => (hchildren child hmem).child index
  | _ => cases hfamily

end Declarations

section Assembly

variable {kind : Kind} {label : Option String} {span : Option Span} {children : List Tree}

/-- Children at the top level, where no header is skipped. -/
theorem Weaves.unskipped (hchildren : ∀ child ∈ children, TreeWeaves child) :
    Weaves (fun rename => unskipped (viewParts 0 (allRenamed rename children)))
      (children.flatMap writtenTexts) :=
  .each 0 fun child hmem index =>
    .ifKind (fun _ => (hchildren child hmem).child index)
      fun _ => .unlessSkipping ((hchildren child hmem).child index)

theorem weaves_interface (hshape : HasShape .interface children)
    (hcomplete : ∀ child ∈ children, IsComplete child)
    (hchildren : ∀ child ∈ children, TreeWeaves child) :
    Weaves (fun rename => interface (view (renamed rename (.node .interface label span children))))
      (children.flatMap writtenTexts) := by
  obtain ⟨first, rest, rfl, ⟨htype, hrest⟩ | hleaf⟩ := hshape
  · refine .ifKind (fun _ => ?_) fun hkind => absurd htype hkind
    match rest, hrest with
    | [], _ =>
      simp only [List.forall_mem_singleton, List.flatMap_singleton] at hchildren ⊢
      exact .own .margin (.lit (.final (hchildren.child 0) (.own .nothing (.lit .nil))))
    | [otherName], _ =>
      simp only [List.forall_mem_cons, List.flatMap_cons, List.flatMap_nil,
        List.append_nil] at hchildren ⊢
      exact .own .margin (.lit (.cons (hchildren.1.child 0)
        (.final (.lit (.final (hchildren.2.1.child 1) .nil)) (.lit .nil))))
  · obtain ⟨hfirst, -⟩ := List.forall_mem_cons.1 hcomplete
    obtain ⟨-, hrest⟩ := List.forall_mem_cons.1 hchildren
    obtain ⟨text, hown, htexts⟩ := hfirst.exists_text (.inl hleaf)
    have htype : first.kind ≠ .interfaceType := by
      intro hkind
      rw [hkind] at hleaf
      cases hleaf
    rw [List.flatMap_cons, htexts]
    refine .ifKind (fun hkind => absurd hkind htype) fun _ => ?_
    exact .own .margin (.lit (.cons (.partText hown 0) (.lit
      (.final (.block (.all hrest 1)) .nil))))

/-- The parameters of a component are written before its specification, wherever they
stand among its children. -/
theorem weaves_component (hshape : HasShape .componentDefinition children)
    (hchildren : ∀ child ∈ children, TreeWeaves child) :
    Weaves (fun rename =>
        component (view (renamed rename (.node .componentDefinition label span children))))
      (children.flatMap writtenTexts) := by
  obtain ⟨heading, name, body, more, rfl,
    rfl | ⟨last, rfl, hlast⟩ | ⟨code, parameters, rfl, hcode⟩⟩ := hshape
  · simp only [List.forall_mem_cons, List.flatMap_cons, List.flatMap_nil,
      List.append_nil] at hchildren ⊢
    exact .cons (hchildren.1.child 0) (.cons (hchildren.2.1.child 1) (.own .nothing
      (.final (hchildren.2.2.1.child 2) (.own .nothing .nil))))
  · simp only [List.forall_mem_cons, List.flatMap_cons, List.flatMap_nil,
      List.append_nil] at hchildren ⊢
    obtain ⟨hheading, hname, hbody, hmore, -⟩ := hchildren
    obtain hcode | hparameters := hlast
    · exact .cons (hheading.child 0) (.cons (hname.child 1) (.own
        (.ifKind (fun hkind => absurd (hcode.symm.trans hkind) (by nofun)) fun _ => .nothing)
        (.cons (hbody.child 2) (.final
          (.ifKind (fun _ => hmore.child 3) fun hkind => absurd hcode hkind) .nil))))
    · refine .perm (.cons (hheading.child 0) (.cons (hname.child 1) (.cons
        (.ifKind (fun _ => hmore.child 3) fun hkind => absurd hparameters hkind)
        (.final (hbody.child 2) (.own (.ifKind
          (fun hkind => absurd (hparameters.symm.trans hkind) (by nofun)) fun _ => .nothing)
          .nil))))) ?_
      exact (List.perm_append_comm.append_left _).append_left _
  · simp only [List.forall_mem_cons, List.flatMap_cons, List.flatMap_nil,
      List.append_nil] at hchildren ⊢
    obtain ⟨hheading, hname, hbody, himplementation, hparameters, -⟩ := hchildren
    refine .perm (.cons (hheading.child 0) (.cons (hname.child 1) (.cons (hparameters.child 4)
      (.cons (hbody.child 2) (.final
        (.ifKind (fun _ => himplementation.child 3) fun hkind => absurd hcode hkind) .nil))))) ?_
    rw [← List.append_assoc (writtenTexts body)]
    exact (List.perm_append_comm.append_left _).append_left _

theorem exists_spelling_of_isWiring (hkind : isWiring kind = true) :
    ∃ text, kind.spelling? = some text ∧ isLeaf kind = false ∧ kind ≠ .enum := by
  cases kind with
  | binary operator => exact ⟨_, rfl, rfl, nofun⟩
  | arrow | leftArrow => exact ⟨_, rfl, rfl, nofun⟩
  | _ => cases hkind

/-- The endpoints below the operator of a wiring, which are rendered in its place. -/
theorem Weaves.endpoints (hchildren : ∀ child ∈ children, TreeWeaves child) :
    Weaves (fun rename =>
        .seq ((view (renamed rename (.node kind label span children))).toPart 0).inner)
      (children.flatMap writtenTexts) := by
  have hinner : ∀ rename,
      ((view (renamed rename (.node kind label span children))).toPart 0).inner =
        (viewParts 0 (allRenamed rename children)).map fun part => .descend 0 part.doc := by
    intro rename
    exact List.map_map
  simp only [hinner]
  exact .each 0 fun child hmem index => .descend ((hchildren child hmem).child index) 0

/-- A wiring, whose operator is written after the left endpoint. -/
theorem weaves_connection {operator : Kind} {operatorLabel : Option String}
    {operatorSpan : Option Span} {endpoints : List Tree} {left : Tree}
    (htext : HasProperText .connection label) (hoperator : isWiring operator = true)
    (hoperatorText : HasProperText operator operatorLabel)
    (hendpoints : ∀ endpoint ∈ endpoints, TreeWeaves endpoint) (hleft : TreeWeaves left) :
    TreeWeaves (.node .connection label span
      [.node operator operatorLabel operatorSpan endpoints, left]) := by
  obtain ⟨text, hspelling, hleaf, henum⟩ := exists_spelling_of_isWiring hoperator
  have hown : operator.textOr operatorLabel = some text :=
    (hoperatorText.of_not_isLeaf hleaf).trans hspelling
  have htexts : writtenTexts (.node .connection label span
      [.node operator operatorLabel operatorSpan endpoints, left]) =
        ((operator, text) :: endpoints.flatMap writtenTexts) ++ writtenTexts left := by
    rw [writtenTexts_of_none htext, List.flatMap_cons, writtenTexts_of_some hown henum,
      List.flatMap_singleton]
  rw [TreeWeaves, htexts]
  have hname := @Weaves.partText (.node operator operatorLabel operatorSpan endpoints) text hown 0
  refine .perm (.rule (.own .margin (.cons (hleft.child 1) (.lit (.cons hname
    (.lit (.final (.endpoints hendpoints) (.lit .nil)))))))) ?_
  exact List.perm_append_comm

/-- Words that have no rule are written with a space. -/
theorem weaves_fallback (hfamily : kind.family? = none) (htext : HasProperText kind label)
    (hshape : HasShape kind children) :
    Weaves (fun rename => fallback (view (renamed rename (.node kind label span children))))
      (writtenTexts (.node kind label span children)) := by
  have hword : (∃ text, kind.spelling? = some text) ∧ isLeaf kind = false ∧ kind ≠ .enum ∧
      children = [] := by
    cases kind with
    | moduleWord | configurationWord | genericWord | leftArrow =>
      exact ⟨⟨_, rfl⟩, rfl, nofun, hshape⟩
    | _ => cases hfamily
  obtain ⟨⟨text, hspelling⟩, hleaf, henum, rfl⟩ := hword
  have hown : kind.textOr label = some text := (htext.of_not_isLeaf hleaf).trans hspelling
  have hdoc : ∀ rename, fallback (view (renamed rename (.node kind label span []))) =
      .seq [.report ⟨.warning, .printer, "No rule to render " ++ kind.name ++
          ", emitting its text"⟩,
        .write (view (renamed rename (.node kind label span []))).text, " "] := by
    intro rename
    have htext : (view (renamed rename (.node kind label span []))).text =
        some (rename kind text) := by
      rw [text_view, text_renamed, Tree.text, hown]
      rfl
    rw [fallback, htext]
    rfl
  simp only [hdoc]
  rw [writtenTexts_of_some hown henum]
  exact .own (.report _) (.final (.ownText hown) (.lit .nil))

theorem weaves_assembly (hfamily : kind.family? = some .assembly)
    (htext : HasProperText kind label) (hshape : HasShape kind children)
    (hcomplete : ∀ child ∈ children, IsComplete child)
    (hchildren : ∀ child ∈ children, TreeWeaves child) :
    Weaves (fun rename => assembly (view (renamed rename (.node kind label span children))))
      (writtenTexts (.node kind label span children)) := by
  rw [writtenTexts_of_none (htext.eq_none (.inr hfamily))]
  cases kind with
  | file => exact .unskipped hchildren
  | interface => exact weaves_interface hshape hcomplete hchildren
  | componentDefinition => exact weaves_component hshape hchildren
  | componentKind =>
    refine .each 0 fun word hmem index => ?_
    obtain ⟨text, hown, htexts⟩ := (hcomplete word hmem).exists_text (.inr (hshape word hmem))
    rw [htexts]
    exact .final (.partText hown index) (.lit .nil)
  | componentParameterList =>
    exact .lit (.final (.within (.commaSeparated hchildren 0 ", ")) (.lit .nil))
  | specification => exact .lit (.final (.block (.all hchildren 0)) .nil)
  | uses | provides => exact .own .margin (.lit (.final (.block (.all hchildren 0)) .nil))
  | interfaceType =>
    obtain ⟨name, types, rfl, hleaf⟩ := hshape
    obtain ⟨hname, -⟩ := List.forall_mem_cons.1 hcomplete
    obtain ⟨-, htypes⟩ := List.forall_mem_cons.1 hchildren
    obtain ⟨text, hown, htexts⟩ := hname.exists_text (.inl hleaf)
    rw [List.flatMap_cons, htexts]
    cases types with
    | nil => exact .cons (.partText hown 0) (.own .nothing .nil)
    | cons type types =>
      exact .cons (.partText hown 0)
        (.final (.lit (.final (.commaSeparated htypes 1 ", ") (.lit .nil))) .nil)
  | implementation => exact .own .margin (.lit (.final (.block (.unskipped hchildren)) .nil))
  | components =>
    exact .own .margin (.lit (.final (.commaSeparated hchildren 0 ", ") (.lit .nil)))
  | componentDeclaration =>
    obtain hone | htwo := hshape
    · obtain ⟨name, rfl⟩ := List.length_eq_one_iff.1 hone
      simp only [List.forall_mem_singleton, List.flatMap_singleton] at hchildren ⊢
      exact .final (hchildren.child 0) (.own .nothing .nil)
    · obtain ⟨name, otherName, rfl, hname, hotherName, htexts⟩ :=
        exists_pair_weaves htwo hchildren
      rw [htexts]
      exact .cons (hname.child 0)
        (.final (.lit (.final (hotherName.child 1) .nil)) .nil)
  | componentInstantiation =>
    obtain hone | htwo := hshape
    · obtain ⟨name, rfl⟩ := List.length_eq_one_iff.1 hone
      simp only [List.forall_mem_singleton, List.flatMap_singleton] at hchildren ⊢
      exact .lit (.final (hchildren.child 0) (.lit (.own .nothing (.lit .nil))))
    · obtain ⟨name, arguments, rfl, hname, harguments, htexts⟩ :=
        exists_pair_weaves htwo hchildren
      rw [htexts]
      exact .lit (.cons (hname.child 0) (.lit (.final (harguments.child 1) (.lit .nil))))
  | componentArguments => exact .commaSeparated hchildren 0 ", "
  | identifierPath => exact .commaSeparated hchildren 0 "."
  | null => exact .all hchildren 0
  | connection => exact hshape.elim
  | lineDirective => exact hshape.elim
  | _ => cases hfamily

end Assembly

section Results

/-- Each text of a complete tree is written once. -/
theorem IsComplete.weaves {tree : Tree} (htree : IsComplete tree) : TreeWeaves tree := by
  induction htree with
  | @node kind label span children htext hshape hcomplete ih =>
    have hkind : ∀ rename, (view (renamed rename (.node kind label span children))).kind = kind :=
      fun _ => rfl
    apply Weaves.rule
    simp only [Node.doc, hkind]
    cases hfamily : kind.family? with
    | none => exact weaves_fallback hfamily htext hshape
    | some family =>
      cases family with
      | declaration => exact weaves_declaration hfamily htext hshape ih
      | statement => exact weaves_statement hfamily htext hshape hcomplete ih
      | expression => exact weaves_expression hfamily htext hshape ih
      | assembly => exact weaves_assembly hfamily htext hshape hcomplete ih
  | connection htext hoperator hoperatorText _ _ ihendpoints ihleft =>
    exact weaves_connection htext hoperator hoperatorText ihendpoints ihleft

variable {tree : Tree} {state : State}

/-- A complete tree is rendered without a fault, and no text is lost or written twice: for
each tree there is a template with one slot for each text of a node, that gives the output
whatever the texts are. -/
theorem rendered_texts_once (htree : IsComplete tree) (hheaders : state.headers = .emitting)
    (hdeclarators : state.declarators ≠ []) :
    ∃ template, (slots template).Perm (writtenTexts tree) ∧
      (renderPart tree state).result =
        .ok (String.ofList (filled (fun _ text => text) template)) ∧
      ∀ rename, (renderPart (renamed rename tree) state).result =
        .ok (String.ofList (filled rename template)) := by
  obtain ⟨template, hslots, hwrites⟩ := htree.weaves state hheaders hdeclarators
  have hown : (treeDoc tree).Writes state (filled (fun _ text => text) template) := by
    rw [← treeDoc_eq_of_content_eq (content_renamed_id tree)]
    exact hwrites fun _ text => text
  exact ⟨template, hslots, hown.result_renderPart, fun rename => (hwrites rename).result_renderPart⟩

/-- A wiring, whose endpoints and operator are not written in the order of the tree. -/
theorem rendered_texts_once_wiring :
    ∃ template, (slots template).Perm
        [(.arrow, "->"), (.identifier, "timer"), (.identifier, "app")] ∧
      ∀ rename, (renderPart (renamed rename (.node .connection none none
          [.node .arrow none none [.identifier "timer"], .identifier "app"])) .initial).result =
        .ok (String.ofList (filled rename template)) := by
  have hname : ∀ name, IsComplete (.identifier name) := fun name => .node rfl rfl (by simp)
  have hwiring : IsComplete (.node .connection none none
      [.node .arrow none none [.identifier "timer"], .identifier "app"]) :=
    .connection rfl rfl rfl (List.forall_mem_singleton.2 (hname "timer")) (hname "app")
  obtain ⟨template, hslots, -, hresult⟩ :=
    @rendered_texts_once _ .initial hwiring rfl (List.cons_ne_nil 0 [])
  exact ⟨template, hslots, hresult⟩

end Results

end NescTree.Render
