import Mathlib.Algebra.Ring.Nat
import NescTree.Proofs.Render.ExpressionReading

/-!
# How many parentheses an expression has

Operators, dereferences, argument lists, sizes and variable arguments are written with one
pair of parentheses, and casts with two.  An operator goes without its pair where it is the
operand of a cast or of the size of an expression, or the expression of a statement.  Every
other edge inside of an expression asks for the pair, so nothing else is left out and the
number of parentheses can be read off the kinds of the nodes.
-/

namespace NescTree.Render

open Doc

section Expressions

abbrev IsParenthesis (char : Char) : Prop := char = '(' ∨ char = ')'

def IsParenthesisFree (text : String) : Prop := '(' ∉ text.toList ∧ ')' ∉ text.toList

instance : DecidablePred IsParenthesisFree :=
  fun text => inferInstanceAs (Decidable ('(' ∉ text.toList ∧ ')' ∉ text.toList))

/-- A word of a type, which stands for itself. -/
inductive IsTypeWord : Tree → Prop where
  | word {kind : Kind} {label : Option String} {span : Option Span} {text : String}
      (hkind : kind = .rawIdentifier ∨ ∃ word, kind = .keyword word)
      (hlabel : kind.textOr label = some text) (htext : IsParenthesisFree text) :
      IsTypeWord (.node kind label span [])

/-- Expressions with casts, sizes and variable arguments.  Operators have their spelling as
their text, and no leaf has parentheses in its text. -/
inductive IsFullExpression : Place → Tree → Prop where
  | leaf {kind : Kind} {text : String} {span : Option Span}
      (hkind : kind = .identifier ∨ kind = .constant ∨ kind = .stringLiteral)
      (htext : IsParenthesisFree text) :
      IsFullExpression .operand (.node kind (some text) span [])
  | binary {operator : BinaryOperator} {label : Option String} {span : Option Span}
      {left right : Tree}
      (hlabel : (Kind.binary operator).textOr label = some operator.spelling)
      (hleft : IsFullExpression .operand left) (hright : IsFullExpression .operand right) :
      IsFullExpression .operand (.node (.binary operator) label span [left, right])
  | conditional {span : Option Span} {condition first second : Tree}
      (hcondition : IsFullExpression .operand condition)
      (hfirst : IsFullExpression .operand first) (hsecond : IsFullExpression .operand second) :
      IsFullExpression .operand (.node .conditional none span [condition, first, second])
  | unary {operator : UnaryOperator} {span : Option Span} {inner : Tree}
      (hinner : IsFullExpression .operand inner) :
      IsFullExpression .operand (.node (.unary operator) none span [inner])
  | dereference {span : Option Span} {inner : Tree} (hinner : IsFullExpression .operand inner) :
      IsFullExpression .operand (.node .dereference none span [inner])
  | sizeofExpression {span : Option Span} {inner : Tree}
      (hinner : IsFullExpression .operand inner) :
      IsFullExpression .operand (.node .sizeofExpression none span [inner])
  | cast {span : Option Span} {inner : Tree} {type : List Tree}
      (hinner : IsFullExpression .operand inner) (htype : ∀ word ∈ type, IsTypeWord word) :
      IsFullExpression .operand (.node .cast none span (inner :: type))
  | vaArg {span : Option Span} {inner type : Tree} (hinner : IsFullExpression .operand inner)
      (htype : IsTypeWord type) :
      IsFullExpression .operand (.node .vaArg none span [inner, type])
  | chain {span : Option Span} {base : Tree} {followers : List Tree}
      (hbase : IsFullExpression .operand base)
      (hfollowers : ∀ follower ∈ followers, IsFullExpression .follower follower) :
      IsFullExpression .operand (.node .postfixChain none span (base :: followers))
  | arguments {span : Option Span} {arguments : List Tree}
      (harguments : ∀ argument ∈ arguments, IsFullExpression .operand argument) :
      IsFullExpression .follower (.node .argumentList none span arguments)
  | element {span : Option Span} {index : Tree} (hindex : IsFullExpression .operand index) :
      IsFullExpression .follower (.node .elementSelection none span [index])
  | selector {kind : Kind} {label : Option String} {span : Option Span} {name : Tree}
      (hkind : kind = .dot ∨ kind = .arrow) (hlabel : kind.textOr label = kind.spelling?)
      (hname : IsFullExpression .operand name) :
      IsFullExpression .follower (.node kind label span [name])
  | count {kind : Kind} {label : Option String} {span : Option Span}
      (hkind : kind = .plusPlus ∨ kind = .minusMinus)
      (hlabel : kind.textOr label = kind.spelling?) :
      IsFullExpression .follower (.node kind label span [])

end Expressions

section Rules

variable {state : State} {label : Option String} {span : Option Span}

theorem writes_typeWord {kind : Kind} {text : String}
    (hkind : kind = .rawIdentifier ∨ ∃ word, kind = .keyword word)
    (hlabel : kind.textOr label = some text) :
    (treeDoc (.node kind label span [])).Writes state (text.toList ++ [' ']) := by
  have hseq : (Doc.seq [.write (kind.textOr label), " "]).Writes state (text.toList ++ [' ']) :=
    .cons (.textOf hlabel) (.lit .nil)
  obtain rfl | ⟨word, rfl⟩ := hkind <;> exact .rule hseq

theorem writes_sizeofExpression {inner : Tree} {text : List Char}
    (hinner : (treeDoc inner).Writes { state with bare := true } text) :
    (treeDoc (.node .sizeofExpression label span [inner])).Writes state
      ("sizeof( ".toList ++ (text ++ [' ', ')'])) := by
  refine .congr (.rule (.lit (.cons (.parentheses (.cons (hinner.child 0) .nil))
    (.lit .nil)))) ?_
  simp

/-- The type comes first, and the operand is rendered without parentheses. -/
theorem writes_cast {inner : Tree} {type : List Tree} {text : List Char}
    {typeText : Tree → List Char}
    (hinner : (treeDoc inner).Writes { state with bare := true } text)
    (htype : ∀ word ∈ type, (treeDoc word).Writes state (typeText word)) :
    (treeDoc (.node .cast label span (inner :: type))).Writes state
      ('(' :: (type.flatMap typeText ++ ')' :: '(' :: ' ' :: (text ++ [' ', ')']))) := by
  refine .congr (.rule (.lit (.cons (.seq (Writes.docs htype 1)) (.lit
    (.cons (.parentheses (hinner.child 0)) (.lit .nil)))))) ?_
  simp [List.flatMap_def]

theorem writes_vaArg {inner type : Tree} {text typeText : List Char}
    (hinner : (treeDoc inner).Writes { state with bare := false } text)
    (htype : (treeDoc type).Writes { state with bare := false } typeText) :
    (treeDoc (.node .vaArg label span [inner, type])).Writes state
      ("__builtin_va_arg(".toList ++ (text ++ ',' :: ' ' :: (typeText ++ [')']))) := by
  refine .congr (.rule (.lit (.cons (.parentheses (.cons (hinner.child 0) (.lit
    (.cons (htype.child 1) .nil)))) (.lit .nil)))) ?_
  simp

end Rules

section Numbers

def ownPairs : Kind → Nat
  | .binary _ | .conditional | .dereference | .argumentList | .sizeofExpression | .vaArg => 1
  | .cast => 2
  | _ => 0

/-- The children of a node that are rendered without parentheses of their own. -/
def suppressedChildren (node : Tree) : List Tree :=
  match node.kind with
  | .sizeofExpression => node.children
  | .cast => node.children.take 1
  | _ => []

def allPairs (tree : Tree) : Nat := (tree.walk.map fun node => ownPairs node.kind).sum

/-- The number of operators in a tree that go without their parentheses. -/
def suppressedOperators (tree : Tree) : Nat :=
  (tree.walk.flatMap suppressedChildren).countP fun node => isOperator node.kind

variable (kind : Kind) (label : Option String) (span : Option Span) (children : List Tree)

@[simp]
theorem allPairs_node : allPairs (.node kind label span children) =
    ownPairs kind + (children.map allPairs).sum := by
  rw [allPairs, Tree.walk, List.map_cons, List.sum_cons, Tree.walkAll_eq_flatMap, List.map_flatMap,
    List.flatMap_def, List.sum_flatten, List.map_map]
  rfl

@[simp]
theorem suppressedOperators_node : suppressedOperators (.node kind label span children) =
    (suppressedChildren (.node kind label span children)).countP (isOperator ·.kind) +
      (children.map suppressedOperators).sum := by
  rw [suppressedOperators, Tree.walk, List.flatMap_cons, List.countP_append,
    Tree.walkAll_eq_flatMap, List.flatMap_assoc, List.countP_flatMap]
  rfl

end Numbers

section Counting

variable {paren : Char}

/-- Whether a tree can be rendered with as many parentheses of either direction as its nodes
ask for, less those that operators inside of it go without, and less one if it is such an
operator itself.  What follows others in a chain is rendered only where operators have
parentheses. -/
structure IsCounted (place : Place) (tree : Tree) : Prop where
  renders : Renders tree
  count : ∀ state : State, (place = .follower → state.bare = false) →
    ∀ paren, IsParenthesis paren → (textIn state tree).count paren + suppressedOperators tree +
      (if state.bare = true ∧ isOperator tree.kind = true then 1 else 0) = allPairs tree

/-- Where operators have parentheses, none are left out but further down. -/
theorem IsCounted.count_enclosed {place : Place} {tree : Tree} (htree : IsCounted place tree)
    (state : State) (hbare : state.bare = false) (hparen : IsParenthesis paren) :
    (textIn state tree).count paren + suppressedOperators tree = allPairs tree := by
  have hcount := htree.count state (fun _ => hbare) paren hparen
  simpa [hbare] using hcount

/-- Where operators go without parentheses, an operator leaves out one pair more. -/
theorem IsCounted.count_bare {tree : Tree} (htree : IsCounted .operand tree)
    (state : State) (hbare : state.bare = true) (hparen : IsParenthesis paren) :
    (textIn state tree).count paren + suppressedOperators tree +
      (if isOperator tree.kind = true then 1 else 0) = allPairs tree := by
  have hcount := htree.count state nofun paren hparen
  simpa [hbare] using hcount

/-- The parentheses of trees that are written one after the other. -/
theorem sum_count {trees : List Tree} {state : State}
    (htrees : ∀ tree ∈ trees,
      (textIn state tree).count paren + suppressedOperators tree = allPairs tree) :
    (trees.map fun tree => (textIn state tree).count paren).sum +
      (trees.map suppressedOperators).sum = (trees.map allPairs).sum := by
  induction trees with
  | nil => rfl
  | cons tree trees ih =>
    obtain ⟨htree, htail⟩ := List.forall_mem_cons.1 htrees
    have hsum := ih htail
    simp only [List.map_cons, List.sum_cons]
    omega

theorem count_intercalate {separator : List Char} (hseparator : paren ∉ separator)
    (texts : List (List Char)) :
    (separator.intercalate texts).count paren = (texts.map (List.count paren)).sum := by
  induction texts with
  | nil => rfl
  | cons text texts ih =>
    cases texts with
    | nil => simp
    | cons next texts =>
      rw [List.intercalate_cons_cons, List.count_append, List.count_append, ih,
        List.count_eq_zero_of_not_mem hseparator]
      simp

theorem count_eq_zero_of_isParenthesisFree {text : String} (htext : IsParenthesisFree text)
    (hparen : IsParenthesis paren) : text.toList.count paren = 0 := by
  obtain rfl | rfl := hparen
  · exact List.count_eq_zero_of_not_mem htext.1
  · exact List.count_eq_zero_of_not_mem htext.2

theorem isParenthesisFree_spelling (operator : BinaryOperator) :
    IsParenthesisFree operator.spelling := by
  cases operator <;> decide

theorem isParenthesisFree_symbol (operator : UnaryOperator) :
    IsParenthesisFree operator.symbol := by
  cases operator <;> decide

end Counting

section Kinds

variable {place : Place} {kind : Kind} {label : Option String} {span : Option Span}
  {children : List Tree} {text : State → List Char}

attribute [local simp] ownPairs suppressedChildren

/-- The parentheses of a node that is no operator are its own and those of its children. -/
theorem isCounted_of_writes (hkind : isOperator kind = false)
    (hwrites : ∀ state, (treeDoc (.node kind label span children)).Writes state (text state))
    (hcount : ∀ state : State, (place = .follower → state.bare = false) →
      ∀ paren, IsParenthesis paren → (text state).count paren +
          (suppressedChildren (.node kind label span children)).countP (isOperator ·.kind) +
          (children.map suppressedOperators).sum = ownPairs kind + (children.map allPairs).sum) :
    IsCounted place (.node kind label span children) := by
  refine ⟨renders_of_writes hwrites, fun state hplace paren hparen => ?_⟩
  have hparts := hcount state hplace paren hparen
  rw [(hwrites state).textIn_eq, suppressedOperators_node, allPairs_node]
  simp only [Tree.kind_node, hkind, Bool.false_eq_true, and_false, if_false]
  omega

/-- An operator has one pair around what its operands and its spelling are written as, or
none if it goes without. -/
theorem isCounted_operator (hkind : isOperator kind = true)
    (hwrites : ∀ state : State, (treeDoc (.node kind label span children)).Writes state
      (enclosed state.bare (text state)))
    (hcount : ∀ state paren, IsParenthesis paren → (text state).count paren +
      (children.map suppressedOperators).sum = (children.map allPairs).sum) :
    IsCounted .operand (.node kind label span children) := by
  refine ⟨renders_of_writes hwrites, fun state hplace paren hparen => ?_⟩
  have hparts := hcount state paren hparen
  have hpair : (enclosed state.bare (text state)).count paren +
      (if state.bare = true then 1 else 0) = (text state).count paren + 1 := by
    cases state.bare <;> obtain rfl | rfl := hparen <;> simp
  have hown : ownPairs kind = 1 ∧ suppressedChildren (.node kind label span children) = [] := by
    cases kind with
    | binary _ | conditional => exact ⟨rfl, rfl⟩
    | _ => cases hkind
  rw [(hwrites state).textIn_eq, suppressedOperators_node, allPairs_node, hown.1, hown.2]
  simp only [Tree.kind_node, hkind, and_true, List.countP_nil]
  omega

/-- A childless node that is written without parentheses. -/
theorem isCounted_childless {text : List Char} (hkind : isOperator kind = false)
    (hpairs : ownPairs kind = 0)
    (hwrites : ∀ state, (treeDoc (.node kind label span [])).Writes state text)
    (hnone : ∀ paren, IsParenthesis paren → text.count paren = 0) :
    IsCounted place (.node kind label span []) := by
  refine isCounted_of_writes hkind hwrites fun _ _ paren hparen => ?_
  have hsuppressed : suppressedChildren (.node kind label span []) = [] := by
    rw [suppressedChildren]
    split <;> rfl
  rw [hsuppressed, hpairs, hnone paren hparen]
  rfl

theorem isCounted_leaf {text : String}
    (hkind : kind = .identifier ∨ kind = .constant ∨ kind = .stringLiteral)
    (htext : IsParenthesisFree text) : IsCounted .operand (.node kind (some text) span []) := by
  have hwrites := fun state => @writes_leaf state span kind text hkind
  have hnone := fun paren => @count_eq_zero_of_isParenthesisFree paren text htext
  obtain rfl | rfl | rfl := hkind <;> exact isCounted_childless rfl rfl hwrites hnone

theorem isCounted_typeWord {tree : Tree} (htree : IsTypeWord tree) : IsCounted .operand tree := by
  obtain @⟨kind, label, span, text, hkind, hlabel, htext⟩ := htree
  have hwrites := fun state => @writes_typeWord state label span kind text hkind hlabel
  have hnone : ∀ paren, IsParenthesis paren → (text.toList ++ [' ']).count paren = 0 := by
    intro paren hparen
    rw [List.count_append, count_eq_zero_of_isParenthesisFree htext hparen]
    obtain rfl | rfl := hparen <;> rfl
  obtain rfl | ⟨word, rfl⟩ := hkind <;> exact isCounted_childless rfl rfl hwrites hnone

/-- The words of a type have no parentheses to go without. -/
theorem count_typeWord {tree : Tree} (htree : IsTypeWord tree) (state : State) {paren : Char}
    (hparen : IsParenthesis paren) :
    (textIn state tree).count paren + suppressedOperators tree = allPairs tree := by
  have hkind : isOperator tree.kind = false := by
    obtain @⟨_, _, _, _, rfl | ⟨word, rfl⟩, _, _⟩ := htree <;> rfl
  have hcount := (isCounted_typeWord htree).count state nofun paren hparen
  simpa [hkind] using hcount

theorem isCounted_count (hkind : kind = .plusPlus ∨ kind = .minusMinus)
    (hlabel : kind.textOr label = kind.spelling?) :
    IsCounted .follower (.node kind label span []) := by
  obtain rfl | rfl := hkind <;>
    exact isCounted_childless rfl rfl (fun _ => writes_count (by simp) hlabel)
      fun paren hparen => by obtain rfl | rfl := hparen <;> rfl

theorem isCounted_binary {operator : BinaryOperator} {left right : Tree}
    (hlabel : (Kind.binary operator).textOr label = some operator.spelling)
    (hleft : IsCounted .operand left) (hright : IsCounted .operand right) :
    IsCounted .operand (.node (.binary operator) label span [left, right]) := by
  refine isCounted_operator rfl
    (fun _ => writes_binary hlabel (hleft.renders _) (hright.renders _))
    fun state paren hparen => ?_
  have hlefts := hleft.count_enclosed { state with bare := false } rfl hparen
  have hrights := hright.count_enclosed { state with bare := false } rfl hparen
  have hspelling := count_eq_zero_of_isParenthesisFree (isParenthesisFree_spelling operator) hparen
  obtain rfl | rfl := hparen <;> simp [hspelling] <;> omega

theorem isCounted_conditional {condition first second : Tree}
    (hcondition : IsCounted .operand condition) (hfirst : IsCounted .operand first)
    (hsecond : IsCounted .operand second) :
    IsCounted .operand (.node .conditional label span [condition, first, second]) := by
  refine isCounted_operator rfl (fun _ => writes_conditional (hcondition.renders _)
    (hfirst.renders _) (hsecond.renders _)) fun state paren hparen => ?_
  have hconditions := hcondition.count_enclosed { state with bare := false } rfl hparen
  have hfirsts := hfirst.count_enclosed { state with bare := false } rfl hparen
  have hseconds := hsecond.count_enclosed { state with bare := false } rfl hparen
  obtain rfl | rfl := hparen <;> simp <;> omega

theorem isCounted_unary {operator : UnaryOperator} {inner : Tree}
    (hinner : IsCounted .operand inner) :
    IsCounted .operand (.node (.unary operator) label span [inner]) := by
  refine isCounted_of_writes rfl (fun _ => writes_unary (hinner.renders _))
    fun state _ paren hparen => ?_
  have hcount := hinner.count_enclosed { state with bare := false } rfl hparen
  have hsymbol := count_eq_zero_of_isParenthesisFree (isParenthesisFree_symbol operator) hparen
  simp [hsymbol, hcount]

theorem isCounted_dereference {inner : Tree} (hinner : IsCounted .operand inner) :
    IsCounted .operand (.node .dereference label span [inner]) := by
  refine isCounted_of_writes rfl (fun _ => writes_dereference (hinner.renders _))
    fun state _ paren hparen => ?_
  have hcount := hinner.count_enclosed { state with bare := false } rfl hparen
  obtain rfl | rfl := hparen <;> simp <;> omega

/-- The operand of `sizeof` goes without its own parentheses. -/
theorem isCounted_sizeofExpression {inner : Tree} (hinner : IsCounted .operand inner) :
    IsCounted .operand (.node .sizeofExpression label span [inner]) := by
  refine isCounted_of_writes rfl (fun _ => writes_sizeofExpression (hinner.renders _))
    fun state _ paren hparen => ?_
  have hcount := hinner.count_bare { state with bare := true } rfl hparen
  obtain rfl | rfl := hparen <;> simp [List.countP_cons] <;> omega

/-- The operand of a cast goes without its own parentheses, and the words of the type have
none. -/
theorem isCounted_cast {inner : Tree} {type : List Tree} (hinner : IsCounted .operand inner)
    (htype : ∀ word ∈ type, IsTypeWord word) :
    IsCounted .operand (.node .cast label span (inner :: type)) := by
  have hwords : ∀ word ∈ type, IsCounted .operand word :=
    fun word hword => isCounted_typeWord (htype word hword)
  refine isCounted_of_writes rfl (fun _ => writes_cast (hinner.renders _)
    fun word hword => (hwords word hword).renders _) fun state _ paren hparen => ?_
  have hcount := hinner.count_bare { state with bare := true } rfl hparen
  have hsum := sum_count fun word hword => count_typeWord (htype word hword) state hparen
  obtain rfl | rfl := hparen <;>
    simp [List.countP_cons, List.count_flatMap, Function.comp_def] <;> omega

theorem isCounted_vaArg {inner type : Tree} (hinner : IsCounted .operand inner)
    (htype : IsTypeWord type) : IsCounted .operand (.node .vaArg label span [inner, type]) := by
  have hword := isCounted_typeWord htype
  refine isCounted_of_writes rfl (fun _ => writes_vaArg (hinner.renders _) (hword.renders _))
    fun state _ paren hparen => ?_
  have hcount := hinner.count_enclosed { state with bare := false } rfl hparen
  have htypes := hword.count_enclosed { state with bare := false } rfl hparen
  obtain rfl | rfl := hparen <;> simp <;> omega

theorem isCounted_chain {base : Tree} {followers : List Tree} (hbase : IsCounted .operand base)
    (hfollowers : ∀ follower ∈ followers, IsCounted .follower follower) :
    IsCounted .operand (.node .postfixChain label span (base :: followers)) := by
  refine isCounted_of_writes rfl (fun _ => writes_chain (List.forall_mem_cons.2
    ⟨hbase.renders _, fun follower hmem => (hfollowers follower hmem).renders _⟩))
    fun state _ paren hparen => ?_
  have hcount := hbase.count_enclosed { state with bare := false } rfl hparen
  have hsum := sum_count fun follower hmem =>
    (hfollowers follower hmem).count_enclosed { state with bare := false } rfl hparen
  simp [List.count_flatMap, Function.comp_def]
  omega

theorem isCounted_arguments {arguments : List Tree}
    (harguments : ∀ argument ∈ arguments, IsCounted .operand argument) :
    IsCounted .follower (.node .argumentList label span arguments) := by
  refine isCounted_of_writes rfl (fun _ => writes_arguments fun argument hmem =>
    (harguments argument hmem).renders _) fun state hplace paren hparen => ?_
  have hsum := sum_count fun argument hmem =>
    (harguments argument hmem).count_enclosed state (hplace rfl) hparen
  have hseparator : paren ∉ [',', ' '] := by obtain rfl | rfl := hparen <;> decide
  have hjoined := count_intercalate hseparator (arguments.map (textIn state))
  rw [List.map_map] at hjoined
  obtain rfl | rfl := hparen <;> simp [hjoined, Function.comp_def] <;> omega

theorem isCounted_element {index : Tree} (hindex : IsCounted .operand index) :
    IsCounted .follower (.node .elementSelection label span [index]) := by
  refine isCounted_of_writes rfl (fun _ => writes_element (hindex.renders _))
    fun state hplace paren hparen => ?_
  have hcount := hindex.count_enclosed state (hplace rfl) hparen
  obtain rfl | rfl := hparen <;> simp [hcount]

theorem isCounted_selector {name : Tree} (hkind : kind = .dot ∨ kind = .arrow)
    (hlabel : kind.textOr label = kind.spelling?) (hname : IsCounted .operand name) :
    IsCounted .follower (.node kind label span [name]) := by
  obtain rfl | rfl := hkind <;>
  · refine isCounted_of_writes rfl (fun _ => writes_selector (by simp) hlabel (hname.renders _))
      fun state hplace paren hparen => ?_
    have hcount := hname.count_enclosed state (hplace rfl) hparen
    obtain rfl | rfl := hparen <;> simp [hcount]

end Kinds

section Results

/-- Every expression is rendered with the parentheses that its nodes ask for. -/
theorem IsFullExpression.isCounted {place : Place} {tree : Tree}
    (htree : IsFullExpression place tree) : IsCounted place tree := by
  induction htree with
  | leaf hkind htext => exact isCounted_leaf hkind htext
  | binary hlabel _ _ hleft hright => exact isCounted_binary hlabel hleft hright
  | conditional _ _ _ hcondition hfirst hsecond =>
    exact isCounted_conditional hcondition hfirst hsecond
  | unary _ hinner => exact isCounted_unary hinner
  | dereference _ hinner => exact isCounted_dereference hinner
  | sizeofExpression _ hinner => exact isCounted_sizeofExpression hinner
  | cast _ htype hinner => exact isCounted_cast hinner htype
  | vaArg _ htype hinner => exact isCounted_vaArg hinner htype
  | chain _ _ hbase hfollowers => exact isCounted_chain hbase hfollowers
  | arguments _ harguments => exact isCounted_arguments harguments
  | element _ hindex => exact isCounted_element hindex
  | selector hkind hlabel _ hname => exact isCounted_selector hkind hlabel hname
  | count hkind hlabel => exact isCounted_count hkind hlabel

/-- How many nodes of each kind there are gives the number of their pairs. -/
theorem sum_ownPairs (kinds : List Kind) :
    (kinds.map ownPairs).sum = kinds.countP isOperator + kinds.count .dereference +
      kinds.count .argumentList + kinds.count .sizeofExpression + kinds.count .vaArg +
      2 * kinds.count .cast := by
  induction kinds with
  | nil => rfl
  | cons kind kinds ih =>
    simp only [List.map_cons, List.sum_cons, ih, List.countP_cons, List.count_cons]
    cases kind <;> simp [ownPairs, isOperator] <;> omega

variable {tree : Tree}

/-- An expression is rendered, alone or as a statement.  Alone, it has as many parentheses of
either direction as there are operators, dereferences, argument lists, sizes and variable
arguments in it and twice as many as there are casts, less the operators that are the operand
of a cast or of the size of an expression.  As a statement, it has one pair less if it is an
operator, and else the same. -/
theorem parenthesis_count (htree : IsFullExpression .operand tree) (span : Option Span) :
    ∃ text line, (renderPart tree .initial).result = .ok text ∧
      renderText (.node .statement none span [tree]) = .ok line ∧
      text.toList.count '(' = text.toList.count ')' ∧
      (let kinds := tree.walk.map Tree.kind
       text.toList.count '(' + suppressedOperators tree = kinds.countP isOperator +
        kinds.count .dereference + kinds.count .argumentList + kinds.count .sizeofExpression +
        kinds.count .vaArg + 2 * kinds.count .cast) ∧
      line.toList.count '(' = line.toList.count ')' ∧
      line.toList.count '(' + (if isOperator tree.kind = true then 1 else 0) =
        text.toList.count '(' := by
  have hcounted := htree.isCounted
  have halone : ∀ paren, IsParenthesis paren →
      (operandText tree).count paren + suppressedOperators tree = allPairs tree :=
    fun paren => hcounted.count_enclosed .initial rfl
  have htop : ∀ paren, IsParenthesis paren →
      (topText tree ++ [';', '\n', '\n']).count paren + suppressedOperators tree +
        (if isOperator tree.kind = true then 1 else 0) = allPairs tree := by
    intro paren hparen
    have hend : [';', '\n', '\n'].count paren = 0 := by obtain rfl | rfl := hparen <;> rfl
    rw [List.count_append, hend]
    exact hcounted.count_bare { State.initial with bare := true } rfl hparen
  have hpairs : allPairs tree = ((tree.walk.map Tree.kind).map ownPairs).sum := by
    rw [List.map_map]
    rfl
  have hopening := halone '(' (.inl rfl)
  have hclosing := halone ')' (.inr rfl)
  have htopOpening := htop '(' (.inl rfl)
  have htopClosing := htop ')' (.inr rfl)
  refine ⟨.ofList (operandText tree), .ofList (topText tree ++ [';', '\n', '\n']),
    (hcounted.renders _).result_renderPart, renderText_simple hcounted.renders span,
    ?_, ?_, ?_, ?_⟩
  · rw [String.toList_ofList]
    omega
  · intro kinds
    rw [String.toList_ofList, ← sum_ownPairs, ← hpairs]
    exact hopening
  · rw [String.toList_ofList]
    omega
  · rw [String.toList_ofList, String.toList_ofList]
    omega

/-- In `(int )( a + sizeof( b + c ) )` the outer sum is the operand of the cast and the inner
one that of `sizeof`, so both go without their parentheses. -/
theorem parenthesis_count_cast :
    let inner : Tree := .node (.binary .plus) none none [.identifier "b", .identifier "c"]
    let sum : Tree := .node (.binary .plus) none none
      [.identifier "a", .node .sizeofExpression none none [inner]]
    let cast : Tree := .node .cast none none [sum, .node (.keyword .int) none none []]
    suppressedOperators cast = 2 ∧
      ∃ text line, (renderPart cast .initial).result = .ok text ∧
        renderText (.node .statement none none [cast]) = .ok line ∧
        text.toList.count '(' = 3 ∧ text.toList.count ')' = 3 ∧ line.toList.count '(' = 3 := by
  intro inner sum cast
  have hname : ∀ name, IsParenthesisFree name → IsFullExpression .operand (.identifier name) :=
    fun name hfree => .leaf (.inl rfl) hfree
  have hsum : IsFullExpression .operand sum :=
    .binary rfl (hname "a" (by decide)) (.sizeofExpression (.binary rfl (hname "b" (by decide))
      (hname "c" (by decide))))
  have htype : IsTypeWord (.node (.keyword .int) none none []) :=
    .word (.inr ⟨.int, rfl⟩) rfl (by decide : IsParenthesisFree "int")
  have hcast : IsFullExpression .operand cast := .cast hsum (by simpa using htype)
  have hsuppressed : suppressedOperators cast = 2 := by decide
  obtain ⟨text, line, htext, hline, hsame, hcount, -, hlines⟩ := parenthesis_count hcast none
  have hthree : text.toList.count '(' = 3 := by
    rw [hsuppressed] at hcount
    exact Nat.add_right_cancel hcount
  exact ⟨hsuppressed, text, line, htext, hline, hthree, hsame ▸ hthree, hlines.trans hthree⟩

end Results

end NescTree.Render
