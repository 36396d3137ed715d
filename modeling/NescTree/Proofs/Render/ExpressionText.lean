import NescTree.Proofs.Render.Writing

/-!
# The texts of expressions

Expressions are built from leaves, operators and postfix chains.  Each of them can be
rendered in every state, and its text is put together from the texts of its parts.  The
operands of an operator are rendered with parentheses of their own, so only the topmost
operator depends on the state.
-/

namespace NescTree.Render

open Doc

/-- The places where a node can stand in an expression: it is an operand, or it follows
others in a postfix chain. -/
inductive Place where
  | operand
  | follower
  deriving DecidableEq, Repr

/-- Expressions built from leaves, operators and postfix chains.  What is asked of the texts of
nodes, and what else is asked of them, is left open. -/
inductive IsExpression (permits : Tree → Prop) : Place → Tree → Prop where
  | leaf {kind : Kind} {text : String} {span : Option Span}
      (hkind : kind = .identifier ∨ kind = .constant ∨ kind = .stringLiteral)
      (hnode : permits (.node kind (some text) span [])) :
      IsExpression permits .operand (.node kind (some text) span [])
  | binary {operator : BinaryOperator} {label : Option String} {span : Option Span}
      {left right : Tree} (hleft : IsExpression permits .operand left)
      (hright : IsExpression permits .operand right)
      (hnode : permits (.node (.binary operator) label span [left, right])) :
      IsExpression permits .operand (.node (.binary operator) label span [left, right])
  | conditional {label : Option String} {span : Option Span} {condition first second : Tree}
      (hcondition : IsExpression permits .operand condition)
      (hfirst : IsExpression permits .operand first)
      (hsecond : IsExpression permits .operand second)
      (hnode : permits (.node .conditional label span [condition, first, second])) :
      IsExpression permits .operand (.node .conditional label span [condition, first, second])
  | unary {operator : UnaryOperator} {label : Option String} {span : Option Span} {inner : Tree}
      (hinner : IsExpression permits .operand inner)
      (hnode : permits (.node (.unary operator) label span [inner])) :
      IsExpression permits .operand (.node (.unary operator) label span [inner])
  | dereference {label : Option String} {span : Option Span} {inner : Tree}
      (hinner : IsExpression permits .operand inner)
      (hnode : permits (.node .dereference label span [inner])) :
      IsExpression permits .operand (.node .dereference label span [inner])
  | chain {label : Option String} {span : Option Span} {base : Tree} {followers : List Tree}
      (hbase : IsExpression permits .operand base)
      (hfollowers : ∀ follower ∈ followers, IsExpression permits .follower follower)
      (hnode : permits (.node .postfixChain label span (base :: followers))) :
      IsExpression permits .operand (.node .postfixChain label span (base :: followers))
  | arguments {label : Option String} {span : Option Span} {arguments : List Tree}
      (harguments : ∀ argument ∈ arguments, IsExpression permits .operand argument)
      (hnode : permits (.node .argumentList label span arguments)) :
      IsExpression permits .follower (.node .argumentList label span arguments)
  | element {label : Option String} {span : Option Span} {index : Tree}
      (hindex : IsExpression permits .operand index)
      (hnode : permits (.node .elementSelection label span [index])) :
      IsExpression permits .follower (.node .elementSelection label span [index])
  | selector {kind : Kind} {label : Option String} {span : Option Span} {name : Tree}
      (hkind : kind = .dot ∨ kind = .arrow) (hname : IsExpression permits .operand name)
      (hnode : permits (.node kind label span [name])) :
      IsExpression permits .follower (.node kind label span [name])
  | count {kind : Kind} {label : Option String} {span : Option Span}
      (hkind : kind = .plusPlus ∨ kind = .minusMinus)
      (hnode : permits (.node kind label span [])) :
      IsExpression permits .follower (.node kind label span [])

variable {state : State} {label : Option String} {span : Option Span}

section Rules

theorem writes_leaf {kind : Kind} (text : String)
    (hkind : kind = .identifier ∨ kind = .constant ∨ kind = .stringLiteral) :
    (treeDoc (.node kind (some text) span [])).Writes state text.toList := by
  obtain rfl | rfl | rfl := hkind <;> exact .rule (.literal text)

theorem writes_binary {operator : BinaryOperator} {symbol : String} {left right : Tree}
    {before after : List Char} (hsymbol : (Kind.binary operator).textOr label = some symbol)
    (hleft : (treeDoc left).Writes { state with bare := false } before)
    (hright : (treeDoc right).Writes { state with bare := false } after) :
    (treeDoc (.node (.binary operator) label span [left, right])).Writes state
      (enclosed state.bare (before ++ ' ' :: (symbol.toList ++ ' ' :: after))) := by
  refine .congr (.rule (.operator (.cons (hleft.child 0) (.lit (.cons (.textOf hsymbol)
    (.lit (.cons (hright.child 1) .nil))))))) ?_
  simp

theorem writes_conditional {condition first second : Tree} {test yes no : List Char}
    (hcondition : (treeDoc condition).Writes { state with bare := false } test)
    (hfirst : (treeDoc first).Writes { state with bare := false } yes)
    (hsecond : (treeDoc second).Writes { state with bare := false } no) :
    (treeDoc (.node .conditional label span [condition, first, second])).Writes state
      (enclosed state.bare
        (test ++ ' ' :: '?' :: ' ' :: (yes ++ ' ' :: ':' :: ' ' :: no))) := by
  refine .congr (.rule (.operator (.cons (hcondition.child 0) (.lit (.cons (hfirst.child 1)
    (.lit (.cons (hsecond.child 2) .nil))))))) ?_
  simp

theorem writes_unary {operator : UnaryOperator} {inner : Tree} {text : List Char}
    (hinner : (treeDoc inner).Writes { state with bare := false } text) :
    (treeDoc (.node (.unary operator) label span [inner])).Writes state
      (operator.symbol.toList ++ text) := by
  refine .congr (.rule (.lit (.cons (.parentheses (hinner.child 0)) .nil))) ?_
  simp

theorem writes_dereference {inner : Tree} {text : List Char}
    (hinner : (treeDoc inner).Writes { state with bare := false } text) :
    (treeDoc (.node .dereference label span [inner])).Writes state
      ('(' :: ' ' :: '*' :: (text ++ [' ', ')'])) := by
  refine .congr (.rule (.lit (.cons (.parentheses (hinner.child 0)) (.lit .nil)))) ?_
  simp

theorem writes_chain {children : List Tree} {text : Tree → List Char}
    (hchildren : ∀ child ∈ children,
      (treeDoc child).Writes { state with bare := false } (text child)) :
    (treeDoc (.node .postfixChain label span children)).Writes state
      (children.flatMap text) := by
  refine .congr (.rule (.parentheses (.seq (Writes.docs hchildren 0)))) ?_
  rw [List.flatMap_def]

theorem writes_arguments {arguments : List Tree} {text : Tree → List Char}
    (harguments : ∀ argument ∈ arguments, (treeDoc argument).Writes state (text argument)) :
    (treeDoc (.node .argumentList label span arguments)).Writes state
      ('(' :: ' ' :: ([',', ' '].intercalate (arguments.map text) ++ [' ', ')'])) := by
  refine .congr (.rule (.lit (.cons (.joined (Writes.docs harguments 0)) (.lit .nil)))) ?_
  simp

theorem writes_element {index : Tree} {text : List Char}
    (hindex : (treeDoc index).Writes state text) :
    (treeDoc (.node .elementSelection label span [index])).Writes state
      ('[' :: (text ++ [']'])) := by
  refine .congr (.rule (.lit (.cons (hindex.child 0) (.lit .nil)))) ?_
  simp

theorem writes_selector {kind : Kind} {symbol : String} {name : Tree} {text : List Char}
    (hkind : kind = .dot ∨ kind = .arrow) (hsymbol : kind.textOr label = some symbol)
    (hname : (treeDoc name).Writes state text) :
    (treeDoc (.node kind label span [name])).Writes state (symbol.toList ++ text) := by
  have hseq : (Doc.seq [.write (kind.textOr label), childDoc 0 name]).Writes state
      (symbol.toList ++ text) :=
    .congr (.cons (.textOf hsymbol) (.cons (hname.child 0) .nil)) (by simp)
  obtain rfl | rfl := hkind <;> exact .rule hseq

theorem writes_count {kind : Kind} {symbol : String}
    (hkind : kind = .plusPlus ∨ kind = .minusMinus) (hsymbol : kind.textOr label = some symbol) :
    (treeDoc (.node kind label span [])).Writes state symbol.toList := by
  obtain rfl | rfl := hkind <;> exact .rule (.textOf hsymbol)

end Rules

/-- A node of a kind with a spelling has a text. -/
theorem exists_textOr_eq {kind : Kind} (hspelling : kind.spelling?.isSome = true)
    (label : Option String) : ∃ text, kind.textOr label = some text := by
  obtain ⟨spelling, hspelling⟩ := Option.isSome_iff_exists.1 hspelling
  cases label with
  | none => exact ⟨spelling, hspelling⟩
  | some text => exact ⟨text, rfl⟩

theorem isSome_spelling?_of_selector {kind : Kind} (hkind : kind = .dot ∨ kind = .arrow) :
    kind.spelling?.isSome = true := by
  obtain rfl | rfl := hkind <;> rfl

theorem isSome_spelling?_of_count {kind : Kind}
    (hkind : kind = .plusPlus ∨ kind = .minusMinus) : kind.spelling?.isSome = true := by
  obtain rfl | rfl := hkind <;> rfl

/-- Every expression can be rendered, in every state. -/
theorem IsExpression.renders {permits : Tree → Prop} {place : Place} {tree : Tree}
    (htree : IsExpression permits place tree) : Renders tree := by
  induction htree with
  | leaf hkind => exact renders_of_writes fun _ => writes_leaf _ hkind
  | @binary operator label _ _ _ _ _ _ hleft hright =>
    obtain ⟨text, hlabel⟩ := @exists_textOr_eq (.binary operator) rfl label
    exact renders_of_writes fun _ => writes_binary hlabel (hleft _) (hright _)
  | conditional _ _ _ _ hcondition hfirst hsecond =>
    exact renders_of_writes fun _ => writes_conditional (hcondition _) (hfirst _) (hsecond _)
  | unary _ _ hinner => exact renders_of_writes fun _ => writes_unary (hinner _)
  | dereference _ _ hinner => exact renders_of_writes fun _ => writes_dereference (hinner _)
  | chain _ _ _ hbase hfollowers =>
    exact renders_of_writes fun _ => writes_chain
      (List.forall_mem_cons.2 ⟨hbase _, fun follower hmem => hfollowers follower hmem _⟩)
  | arguments _ _ harguments =>
    exact renders_of_writes fun _ =>
      writes_arguments fun argument hmem => harguments argument hmem _
  | element _ _ hindex => exact renders_of_writes fun _ => writes_element (hindex _)
  | @selector _ label _ _ hkind _ _ hname =>
    obtain ⟨text, hlabel⟩ := exists_textOr_eq (isSome_spelling?_of_selector hkind) label
    exact renders_of_writes fun _ => writes_selector hkind hlabel (hname _)
  | @count _ label _ hkind =>
    obtain ⟨text, hlabel⟩ := exists_textOr_eq (isSome_spelling?_of_count hkind) label
    exact renders_of_writes fun _ => writes_count hkind hlabel

end NescTree.Render
