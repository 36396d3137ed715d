import Mathlib.Data.List.Nodup
import NescTree.Proofs.Render.ExpressionText
import NescTree.Proofs.Render.StatementText
import NescTree.Proofs.Text.Runs

/-!
# Rendered expressions are unambiguous

The text of an operand tells which operand it is and where it ends.  A name ends at the
first character that no name has, an operator at its closing parenthesis, and a postfix
chain goes on as long as the next character can start another of its parts.  So different
expressions have different texts, also where the topmost operator goes without
parentheses.
-/

namespace NescTree.Render

open Text

def isNameChar (char : Char) : Bool := char.isAlphanum || char == '_'

/-- Whether a text is a name, or with a digit at its start a constant. -/
def IsWord (startsWithDigit : Bool) (text : String) : Prop :=
  (∀ char ∈ text.toList, isNameChar char = true) ∧
    ∃ first rest, text.toList = first :: rest ∧ first.isDigit = startsWithDigit

def HasDefaultText (node : Tree) : Prop := node.text = node.kind.spelling?

/-- What is asked of a node in an expression without prefix operators and string literals:
leaves are names and constants, all other nodes have the text of their kind, a postfix chain
has a base that is no chain and something after it, and a member is selected by its name. -/
def IsPlainNode (node : Tree) : Prop :=
  match node.kind with
  | .identifier => ∃ text ∈ node.text, IsWord false text
  | .constant => ∃ text ∈ node.text, IsWord true text
  | .stringLiteral | .unary _ => False
  | .postfixChain => HasDefaultText node ∧
    node.children.head?.map Tree.kind ≠ some .postfixChain ∧ 2 ≤ node.children.length
  | .dot | .arrow => HasDefaultText node ∧ node.children.head?.map Tree.kind = some .identifier
  | _ => HasDefaultText node

/-- Expressions of names, constants, operators between operands, conditionals,
dereferences and postfix chains. -/
abbrev IsPlain : Tree → Prop := IsExpression IsPlainNode .operand

/-- What can follow an expression in a postfix chain. -/
abbrev IsFollower : Tree → Prop := IsExpression IsPlainNode .follower

abbrev operandText : Tree → List Char := textIn .initial

/-- The text of a topmost expression, which goes without parentheses of its own. -/
abbrev topText : Tree → List Char := textIn { State.initial with bare := true }

section Texts

variable {label : Option String} {span : Option Span}

/-- Whether a kind is that of an operator, which has parentheses unless it is topmost. -/
def isOperator : Kind → Bool
  | .binary _ | .conditional => true
  | _ => false

theorem textOr_of_binary {operator : BinaryOperator} {children : List Tree}
    (hnode : IsPlainNode (.node (.binary operator) label span children)) :
    (Kind.binary operator).textOr label = some operator.spelling := hnode

theorem textOr_of_selector {kind : Kind} {children : List Tree}
    (hkind : kind = .dot ∨ kind = .arrow)
    (hnode : IsPlainNode (.node kind label span children)) :
    kind.textOr label = kind.spelling? := by
  obtain rfl | rfl := hkind <;> exact hnode.1

theorem textOr_of_count {kind : Kind} {children : List Tree}
    (hkind : kind = .plusPlus ∨ kind = .minusMinus)
    (hnode : IsPlainNode (.node kind label span children)) :
    kind.textOr label = kind.spelling? := by
  obtain rfl | rfl := hkind <;> exact hnode

theorem topText_binary {operator : BinaryOperator} {left right : Tree}
    (hlabel : (Kind.binary operator).textOr label = some operator.spelling)
    (hleft : IsPlain left) (hright : IsPlain right) :
    topText (.node (.binary operator) label span [left, right]) =
      operandText left ++ ' ' :: (operator.spelling.toList ++ ' ' :: operandText right) :=
  (writes_binary hlabel (hleft.renders _) (hright.renders _)).textIn_eq

theorem topText_conditional {condition first second : Tree} (hcondition : IsPlain condition)
    (hfirst : IsPlain first) (hsecond : IsPlain second) :
    topText (.node .conditional label span [condition, first, second]) =
      operandText condition ++ ' ' :: '?' :: ' ' :: (operandText first ++
        ' ' :: ':' :: ' ' :: operandText second) :=
  (writes_conditional (hcondition.renders _) (hfirst.renders _) (hsecond.renders _)).textIn_eq

/-- An operator that is not topmost is written in parentheses. -/
theorem operandText_operator {tree : Tree} (htree : IsPlain tree)
    (hoperator : isOperator tree.kind = true) :
    operandText tree = '(' :: ' ' :: (topText tree ++ [' ', ')']) := by
  cases htree with
  | binary hleft hright hnode =>
    have hlabel := textOr_of_binary hnode
    rw [topText_binary hlabel hleft hright]
    exact (writes_binary hlabel (hleft.renders _) (hright.renders _)).textIn_eq
  | conditional hcondition hfirst hsecond =>
    rw [topText_conditional hcondition hfirst hsecond]
    exact (writes_conditional (hcondition.renders _) (hfirst.renders _)
      (hsecond.renders _)).textIn_eq
  | leaf hkind => obtain rfl | rfl | rfl := hkind <;> cases hoperator
  | _ => cases hoperator

theorem operandText_dereference {inner : Tree} (hinner : IsPlain inner) :
    operandText (.node .dereference label span [inner]) =
      '(' :: ' ' :: '*' :: (operandText inner ++ [' ', ')']) :=
  (writes_dereference (hinner.renders _)).textIn_eq

theorem operandText_chain {base : Tree} {followers : List Tree} (hbase : IsPlain base)
    (hfollowers : ∀ follower ∈ followers, IsFollower follower) :
    operandText (.node .postfixChain label span (base :: followers)) =
      operandText base ++ followers.flatMap operandText :=
  (writes_chain (List.forall_mem_cons.2 ⟨hbase.renders _,
    fun follower hmem => (hfollowers follower hmem).renders _⟩)).textIn_eq

theorem operandText_arguments {arguments : List Tree}
    (harguments : ∀ argument ∈ arguments, IsPlain argument) :
    operandText (.node .argumentList label span arguments) =
      '(' :: ' ' :: ([',', ' '].intercalate (arguments.map operandText) ++ [' ', ')']) :=
  (writes_arguments fun argument hmem => (harguments argument hmem).renders _).textIn_eq

theorem operandText_element {index : Tree} (hindex : IsPlain index) :
    operandText (.node .elementSelection label span [index]) =
      '[' :: (operandText index ++ [']']) :=
  (writes_element (hindex.renders _)).textIn_eq

theorem operandText_leaf {kind : Kind} {text : String}
    (hkind : kind = .identifier ∨ kind = .constant ∨ kind = .stringLiteral) :
    operandText (.node kind (some text) span []) = text.toList :=
  (writes_leaf text hkind).textIn_eq

theorem operandText_selector {kind : Kind} {symbol : String} {name : Tree}
    (hkind : kind = .dot ∨ kind = .arrow) (hsymbol : kind.textOr label = some symbol)
    (hname : IsPlain name) :
    operandText (.node kind label span [name]) = symbol.toList ++ operandText name :=
  (writes_selector hkind hsymbol (hname.renders _)).textIn_eq

theorem operandText_count {kind : Kind} {symbol : String}
    (hkind : kind = .plusPlus ∨ kind = .minusMinus) (hsymbol : kind.textOr label = some symbol) :
    operandText (.node kind label span []) = symbol.toList :=
  (writes_count hkind hsymbol).textIn_eq

/-- Only the text of an operator depends on whether it is topmost. -/
theorem topText_eq_operandText {tree : Tree} (htree : IsPlain tree)
    (hoperator : isOperator tree.kind = false) : topText tree = operandText tree := by
  cases htree with
  | leaf hkind =>
    rw [operandText_leaf hkind]
    exact (writes_leaf _ hkind).textIn_eq
  | unary _ hnode => exact hnode.elim
  | dereference hinner =>
    rw [operandText_dereference hinner]
    exact (writes_dereference (hinner.renders _)).textIn_eq
  | chain hbase hfollowers =>
    rw [operandText_chain hbase hfollowers]
    exact (writes_chain (List.forall_mem_cons.2 ⟨hbase.renders _,
      fun follower hmem => (hfollowers follower hmem).renders _⟩)).textIn_eq
  | _ => cases hoperator

end Texts

section Starts

/-- The characters that an operand, or a part of a chain after its base, can start with. -/
def canStart : Place → Char → Bool
  | .operand, char => isNameChar char || char == '('
  | .follower, char => char == '(' || char == '[' || char == '.' || char == '-' || char == '+'

/-- The characters that can make an operand longer. -/
def continues (char : Char) : Bool := isNameChar char || canStart .follower char

/-- What is written after an operand does not belong to it. -/
abbrev Stops (rest : List Char) : Prop := StartsOutside continues rest

variable {rest : List Char}

theorem startsOutside_name_of_stops (hrest : Stops rest) : StartsOutside isNameChar rest := by
  intro char hchar
  have hcontinues := hrest char hchar
  rw [continues, Bool.or_eq_false_iff] at hcontinues
  exact hcontinues.1

theorem startsOutside_follower_of_stops (hrest : Stops rest) :
    StartsOutside (canStart .follower) rest := by
  intro char hchar
  have hcontinues := hrest char hchar
  rw [continues, Bool.or_eq_false_iff] at hcontinues
  exact hcontinues.2

/-- A leaf is a constant if it starts with a digit, and else a name. -/
theorem exists_isWord_of_leaf {kind : Kind} {text : String} {span : Option Span}
    (hkind : kind = .identifier ∨ kind = .constant ∨ kind = .stringLiteral)
    (hnode : IsPlainNode (.node kind (some text) span [])) :
    ∃ startsWithDigit, IsWord startsWithDigit text ∧
      kind = if startsWithDigit then .constant else .identifier := by
  obtain rfl | rfl | rfl := hkind
  · exact ⟨false, by simpa [IsPlainNode, Tree.text, Kind.textOr] using hnode, rfl⟩
  · exact ⟨true, by simpa [IsPlainNode, Tree.text, Kind.textOr] using hnode, rfl⟩
  · exact hnode.elim

theorem exists_operandText_eq_cons {place : Place} {tree : Tree}
    (htree : IsExpression IsPlainNode place tree) :
    ∃ char rest, operandText tree = char :: rest ∧ canStart place char = true := by
  induction htree with
  | @leaf kind text span hkind hnode =>
    obtain ⟨startsWithDigit, ⟨hchars, first, rest, htext, -⟩, -⟩ :=
      exists_isWord_of_leaf hkind hnode
    have hfirst : isNameChar first = true := hchars first (by simp [htext])
    refine ⟨first, rest, ?_, by simp [canStart, hfirst]⟩
    rw [operandText_leaf hkind, htext]
  | binary hleft hright hnode =>
    exact ⟨_, _, operandText_operator (.binary hleft hright hnode) rfl, rfl⟩
  | conditional hcondition hfirst hsecond hnode =>
    exact ⟨_, _, operandText_operator (.conditional hcondition hfirst hsecond hnode) rfl, rfl⟩
  | unary _ hnode => exact hnode.elim
  | dereference hinner => exact ⟨_, _, operandText_dereference hinner, rfl⟩
  | @chain label span base followers hbase hfollowers _ ih =>
    obtain ⟨char, rest, htext, hchar⟩ := ih
    refine ⟨char, rest ++ followers.flatMap operandText, ?_, hchar⟩
    rw [operandText_chain hbase hfollowers, htext, List.cons_append]
  | arguments harguments => exact ⟨_, _, operandText_arguments harguments, rfl⟩
  | element hindex => exact ⟨_, _, operandText_element hindex, rfl⟩
  | selector hkind hname hnode =>
    have hlabel := textOr_of_selector hkind hnode
    obtain rfl | rfl := hkind
    · exact ⟨_, _, operandText_selector (by simp) hlabel hname, rfl⟩
    · exact ⟨_, _, operandText_selector (by simp) hlabel hname, rfl⟩
  | count hkind hnode =>
    have hlabel := textOr_of_count hkind hnode
    obtain rfl | rfl := hkind
    · exact ⟨_, _, operandText_count (by simp) hlabel, rfl⟩
    · exact ⟨_, _, operandText_count (by simp) hlabel, rfl⟩

end Starts

section Recovery

variable {rest otherRest : List Char}

/-- An operand that is no chain can be told from every other such operand, whatever is
written after it that does not make a name longer. -/
def BaseReads (base : Tree) : Prop :=
  ∀ ⦃other : Tree⦄ ⦃rest otherRest : List Char⦄, IsPlain other → other.kind ≠ .postfixChain →
    StartsOutside isNameChar rest → StartsOutside isNameChar otherRest →
    operandText base ++ rest = operandText other ++ otherRest →
    base.content = other.content ∧ rest = otherRest

def FollowerReads (follower : Tree) : Prop :=
  ∀ ⦃other : Tree⦄ ⦃rest otherRest : List Char⦄, IsFollower other →
    StartsOutside isNameChar rest → StartsOutside isNameChar otherRest →
    operandText follower ++ rest = operandText other ++ otherRest →
    follower.content = other.content ∧ rest = otherRest

def OperandReads (tree : Tree) : Prop :=
  ∀ ⦃other : Tree⦄ ⦃rest otherRest : List Char⦄, IsPlain other → Stops rest → Stops otherRest →
    operandText tree ++ rest = operandText other ++ otherRest →
    tree.content = other.content ∧ rest = otherRest

/-- What comes after an operand or a part of a chain does not make a name longer. -/
theorem startsOutside_followers {followers : List Tree}
    (hfollowers : ∀ follower ∈ followers, IsFollower follower) (hrest : Stops rest) :
    StartsOutside isNameChar (followers.flatMap operandText ++ rest) := by
  cases followers with
  | nil => exact startsOutside_name_of_stops hrest
  | cons follower followers =>
    obtain ⟨char, more, htext, hchar⟩ :=
      exists_operandText_eq_cons (hfollowers follower List.mem_cons_self)
    rw [List.flatMap_cons, htext, List.cons_append, List.cons_append, startsOutside_cons]
    simp only [canStart, Bool.or_eq_true, beq_iff_eq] at hchar
    obtain (((rfl | rfl) | rfl) | rfl) | rfl := hchar <;> rfl

/-- The parts of a chain can be told apart up to the place where it ends. -/
theorem followers_append_inj {followers others : List Tree}
    (hreads : ∀ follower ∈ followers, FollowerReads follower)
    (hfollowers : ∀ follower ∈ followers, IsFollower follower)
    (hothers : ∀ other ∈ others, IsFollower other) (hrest : Stops rest)
    (hotherRest : Stops otherRest)
    (heq : followers.flatMap operandText ++ rest = others.flatMap operandText ++ otherRest) :
    followers.map Tree.content = others.map Tree.content ∧ rest = otherRest := by
  have hends : ∀ {text rest : List Char} {other : Tree}, Stops rest → IsFollower other →
      rest ≠ operandText other ++ text := by
    rintro text rest other hrest hother rfl
    obtain ⟨char, more, htext, hchar⟩ := exists_operandText_eq_cons hother
    have hstop := startsOutside_follower_of_stops hrest
    rw [htext, List.cons_append, startsOutside_cons, hchar] at hstop
    cases hstop
  induction followers generalizing others with
  | nil =>
    cases others with
    | nil => exact ⟨rfl, heq⟩
    | cons other others =>
      rw [List.flatMap_cons, List.append_assoc] at heq
      exact absurd heq (hends hrest (hothers other List.mem_cons_self))
  | cons follower followers ih =>
    obtain ⟨hfirst, htail⟩ := List.forall_mem_cons.1 hfollowers
    cases others with
    | nil =>
      rw [List.flatMap_cons, List.append_assoc] at heq
      exact absurd heq.symm (hends hotherRest hfirst)
    | cons other others =>
      obtain ⟨hother, hotherTail⟩ := List.forall_mem_cons.1 hothers
      obtain ⟨hread, hreadTail⟩ := List.forall_mem_cons.1 hreads
      rw [List.flatMap_cons, List.flatMap_cons, List.append_assoc, List.append_assoc] at heq
      obtain ⟨hcontent, hremaining⟩ :=
        hread hother (startsOutside_followers htail hrest)
          (startsOutside_followers hotherTail hotherRest) heq
      obtain ⟨hcontents, hend⟩ := ih hreadTail htail hotherTail hremaining
      exact ⟨by rw [List.map_cons, List.map_cons, hcontent, hcontents], hend⟩

/-- An operand is a base and what follows it, where nothing follows if it is no chain. -/
theorem exists_base_of_isPlain {tree : Tree} (htree : IsPlain tree) :
    ∃ base followers, IsPlain base ∧ base.kind ≠ .postfixChain ∧
      (∀ follower ∈ followers, IsFollower follower) ∧
      operandText tree = operandText base ++ followers.flatMap operandText ∧
      tree.content = if followers = [] then base.content
        else .node .postfixChain none none (base.content :: followers.map Tree.content) := by
  by_cases hkind : tree.kind = .postfixChain
  · cases htree with
    | @chain label span base followers hbase hfollowers hnode =>
      have hlabel : Kind.postfixChain.textOr label = none := hnode.1
      have hbaseKind : base.kind ≠ .postfixChain := by simpa using hnode.2.1
      have hsome : followers ≠ [] := by
        rintro rfl
        simpa using hnode.2.2
      refine ⟨base, followers, hbase, hbaseKind, hfollowers,
        operandText_chain hbase hfollowers, ?_⟩
      rw [if_neg hsome, Tree.content_node, List.map_cons, hlabel]
    | leaf hleaf =>
      obtain rfl | rfl | rfl := hleaf <;> cases hkind
    | _ => cases hkind
  · exact ⟨tree, [], htree, hkind, by simp, by simp, by simp⟩

/-- An operand can be told from others if its base and what follows it can. -/
theorem operandReads_of_base {tree base : Tree} {followers : List Tree}
    (hbase : BaseReads base) (hreads : ∀ follower ∈ followers, FollowerReads follower)
    (hfollowers : ∀ follower ∈ followers, IsFollower follower)
    (htext : operandText tree = operandText base ++ followers.flatMap operandText)
    (hcontent : tree.content = if followers = [] then base.content
      else .node .postfixChain none none (base.content :: followers.map Tree.content)) :
    OperandReads tree := by
  intro other rest otherRest hother hrest hotherRest heq
  obtain ⟨otherBase, others, hplain, hkind, hothers, hotherText, hotherContent⟩ :=
    exists_base_of_isPlain hother
  rw [htext, hotherText, List.append_assoc, List.append_assoc] at heq
  obtain ⟨hbases, hremaining⟩ := hbase hplain hkind (startsOutside_followers hfollowers hrest)
    (startsOutside_followers hothers hotherRest) heq
  obtain ⟨hcontents, hend⟩ :=
    followers_append_inj hreads hfollowers hothers hrest hotherRest hremaining
  have hempty : followers = [] ↔ others = [] := by
    rw [← List.map_eq_nil_iff (f := Tree.content), hcontents, List.map_eq_nil_iff]
  refine ⟨?_, hend⟩
  rw [hcontent, hotherContent, hbases, hcontents]
  simp only [hempty]

theorem operandReads_of_baseReads {tree : Tree} (hbase : BaseReads tree) : OperandReads tree :=
  @operandReads_of_base tree tree [] hbase (by simp) (by simp) (by simp) (by simp)

end Recovery

section Operators

theorem space_notMem_spelling (operator : BinaryOperator) :
    ' ' ∉ operator.spelling.toList := by
  cases operator <;> decide

theorem question_ne_spelling (operator : BinaryOperator) (rest otherRest : List Char) :
    '?' :: rest ≠ operator.spelling.toList ++ otherRest := by
  cases operator <;> simp [BinaryOperator.spelling]

theorem spelling_injective {operator other : BinaryOperator}
    (hspelling : operator.spelling = other.spelling) : operator = other := by
  have hnodup : (BinaryOperator.all.map BinaryOperator.spelling).Nodup := by decide +kernel
  exact List.inj_on_of_nodup_map hnodup operator.mem_all other.mem_all hspelling

variable {rest otherRest : List Char}

/-- An operand that is followed by a space can be told from others. -/
theorem OperandReads.space {tree other : Tree} (htree : OperandReads tree) (hother : IsPlain other)
    (heq : operandText tree ++ ' ' :: rest = operandText other ++ ' ' :: otherRest) :
    tree.content = other.content ∧ rest = otherRest := by
  have hread := htree hother (startsOutside_cons.2 rfl) (startsOutside_cons.2 rfl) heq
  simpa using hread

/-- Operators can be told apart by their insides if their operands can. -/
theorem operator_append_inj {tree other : Tree} (htree : IsPlain tree) (hother : IsPlain other)
    (hoperator : isOperator tree.kind = true) (hotherOperator : isOperator other.kind = true)
    (hchildren : ∀ child ∈ tree.children, OperandReads child) (hrest : Stops rest)
    (hotherRest : Stops otherRest) (heq : topText tree ++ rest = topText other ++ otherRest) :
    tree.content = other.content ∧ rest = otherRest := by
  cases htree with
  | @binary operator label span left right hleft hright hnode =>
    have hlabel := textOr_of_binary hnode
    have hleftReads := hchildren left (by simp)
    have hrightReads := hchildren right (by simp)
    rw [topText_binary hlabel hleft hright] at heq
    cases hother with
    | @binary otherOp otherLabel otherSpan otherLeft otherRight hotherLeft hotherRight
        hotherNode =>
      have hotherLabel := textOr_of_binary hotherNode
      rw [topText_binary hotherLabel hotherLeft hotherRight] at heq
      simp only [List.append_assoc, List.cons_append] at heq
      obtain ⟨hlefts, hinner⟩ := hleftReads.space hotherLeft heq
      obtain ⟨hsymbols, hinner⟩ := append_cons_inj (space_notMem_spelling operator)
        (space_notMem_spelling otherOp) hinner
      obtain ⟨hrights, hend⟩ := hrightReads hotherRight hrest hotherRest hinner
      obtain rfl := spelling_injective (String.toList_injective hsymbols)
      refine ⟨?_, hend⟩
      simp only [Tree.content_node, hlabel, hotherLabel, List.map_cons, hlefts, hrights]
    | conditional hcondition hfirst hsecond =>
      rw [topText_conditional hcondition hfirst hsecond] at heq
      simp only [List.append_assoc, List.cons_append] at heq
      obtain ⟨-, hinner⟩ := hleftReads.space hcondition heq
      exact absurd hinner.symm (question_ne_spelling operator _ _)
    | leaf hkind => obtain rfl | rfl | rfl := hkind <;> cases hotherOperator
    | _ => cases hotherOperator
  | @conditional label span condition first second hcondition hfirst hsecond hnode =>
    have hlabel : Kind.conditional.textOr label = none := hnode
    have hconditionReads := hchildren condition (by simp)
    have hfirstReads := hchildren first (by simp)
    have hsecondReads := hchildren second (by simp)
    rw [topText_conditional hcondition hfirst hsecond] at heq
    cases hother with
    | @binary otherOp otherLabel otherSpan otherLeft otherRight hotherLeft hotherRight
        hotherNode =>
      have hotherLabel := textOr_of_binary hotherNode
      rw [topText_binary hotherLabel hotherLeft hotherRight] at heq
      simp only [List.append_assoc, List.cons_append] at heq
      obtain ⟨-, hinner⟩ := hconditionReads.space hotherLeft heq
      exact absurd hinner (question_ne_spelling otherOp _ _)
    | @conditional otherLabel otherSpan _ _ _ hotherCondition hotherFirst hotherSecond
        hotherNode =>
      have hotherLabel : Kind.conditional.textOr otherLabel = none := hotherNode
      rw [topText_conditional hotherCondition hotherFirst hotherSecond] at heq
      simp only [List.append_assoc, List.cons_append] at heq
      obtain ⟨hconditions, hinner⟩ := hconditionReads.space hotherCondition heq
      simp only [List.cons.injEq, true_and] at hinner
      obtain ⟨hfirsts, hinner⟩ := hfirstReads.space hotherFirst hinner
      simp only [List.cons.injEq, true_and] at hinner
      obtain ⟨hseconds, hend⟩ := hsecondReads hotherSecond hrest hotherRest hinner
      refine ⟨?_, hend⟩
      simp only [Tree.content_node, hlabel, hotherLabel, List.map_cons, hconditions, hfirsts,
        hseconds]
    | leaf hkind => obtain rfl | rfl | rfl := hkind <;> cases hotherOperator
    | _ => cases hotherOperator
  | leaf hkind => obtain rfl | rfl | rfl := hkind <;> cases hoperator
  | _ => cases hoperator

end Operators

section Bases

/-- The topmost operator starts with its first operand and a space. -/
theorem exists_first_operand {tree : Tree} (htree : IsPlain tree)
    (hoperator : isOperator tree.kind = true) :
    ∃ first more, IsPlain first ∧ topText tree = operandText first ++ ' ' :: more := by
  cases htree with
  | binary hleft hright hnode =>
    exact ⟨_, _, hleft, topText_binary (textOr_of_binary hnode) hleft hright⟩
  | conditional hcondition hfirst hsecond =>
    exact ⟨_, _, hcondition, topText_conditional hcondition hfirst hsecond⟩
  | leaf hkind => obtain rfl | rfl | rfl := hkind <;> cases hoperator
  | _ => cases hoperator

theorem exists_topText_eq_cons {tree : Tree} (htree : IsPlain tree)
    (hoperator : isOperator tree.kind = true) :
    ∃ char rest, topText tree = char :: rest ∧ canStart .operand char = true := by
  obtain ⟨first, more, hfirst, htop⟩ := exists_first_operand htree hoperator
  obtain ⟨char, rest, htext, hchar⟩ := exists_operandText_eq_cons hfirst
  rw [htop, htext, List.cons_append]
  exact ⟨char, _, rfl, hchar⟩

/-- An operand that is no chain is a leaf, an operator in its parentheses, or a
dereference. -/
theorem base_cases {tree : Tree} (htree : IsPlain tree) (hkind : tree.kind ≠ .postfixChain) :
    (∃ startsWithDigit text, IsWord startsWithDigit text ∧ operandText tree = text.toList ∧
      tree.content =
        .node (if startsWithDigit then .constant else .identifier) (some text) none []) ∨
    (isOperator tree.kind = true ∧
      operandText tree = '(' :: ' ' :: (topText tree ++ [' ', ')'])) ∨
    ∃ inner, IsPlain inner ∧
      operandText tree = '(' :: ' ' :: '*' :: (operandText inner ++ [' ', ')']) ∧
      tree.content = .node .dereference none none [inner.content] := by
  by_cases hoperator : isOperator tree.kind = true
  · exact .inr (.inl ⟨hoperator, operandText_operator htree hoperator⟩)
  cases htree with
  | @leaf kind text span hleaf hnode =>
    obtain ⟨startsWithDigit, hword, hkind⟩ := exists_isWord_of_leaf hleaf hnode
    refine .inl ⟨startsWithDigit, text, hword, operandText_leaf hleaf, ?_⟩
    rw [← hkind, Tree.content_node]
    rfl
  | unary _ hnode => exact hnode.elim
  | @dereference label _ _ hinner hnode =>
    have hlabel : Kind.dereference.textOr label = none := hnode
    refine .inr (.inr ⟨_, hinner, operandText_dereference hinner, ?_⟩)
    rw [Tree.content_node, hlabel]
    rfl
  | chain => exact absurd rfl hkind
  | _ => exact absurd rfl hoperator

/-- No word starts with a parenthesis. -/
theorem IsWord.append_ne {startsWithDigit : Bool} {text : String}
    (hword : IsWord startsWithDigit text) (rest otherRest : List Char) :
    text.toList ++ rest ≠ '(' :: otherRest := by
  obtain ⟨hchars, first, more, htext, -⟩ := hword
  intro heq
  have hfirst : isNameChar first = true := hchars first (by simp [htext])
  rw [htext, List.cons_append, List.cons.injEq] at heq
  rw [heq.1] at hfirst
  cases hfirst

/-- An operand does not start with a star. -/
theorem star_cons_ne {text : List Char} {char : Char} {rest : List Char}
    (htext : text = char :: rest) (hchar : canStart .operand char = true)
    (otherRest more : List Char) : text ++ more ≠ '*' :: otherRest := by
  intro heq
  rw [htext, List.cons_append, List.cons.injEq] at heq
  rw [heq.1] at hchar
  cases hchar

theorem baseReads_leaf {kind : Kind} {text : String} {span : Option Span}
    (hkind : kind = .identifier ∨ kind = .constant ∨ kind = .stringLiteral)
    (hnode : IsPlainNode (.node kind (some text) span [])) :
    BaseReads (.node kind (some text) span []) := by
  intro other rest otherRest hother hotherKind hrest hotherRest heq
  obtain ⟨startsWithDigit, hword, rfl⟩ := exists_isWord_of_leaf hkind hnode
  rw [operandText_leaf hkind] at heq
  obtain ⟨otherDigit, otherText, hotherWord, htext, hcontent⟩ | ⟨-, htext⟩ | ⟨inner, -, htext, -⟩ :=
    base_cases hother hotherKind
  · rw [htext] at heq
    obtain ⟨htexts, hend⟩ := run_append_inj hword.1 hotherWord.1 hrest hotherRest heq
    obtain rfl := String.toList_injective htexts
    obtain ⟨-, first, more, hfirst, rfl⟩ := hword
    obtain ⟨-, otherFirst, otherMore, hotherFirst, rfl⟩ := hotherWord
    rw [hfirst, List.cons.injEq] at hotherFirst
    refine ⟨?_, hend⟩
    rw [hcontent, Tree.content_node, hotherFirst.1]
    rfl
  · rw [htext] at heq
    exact absurd heq (hword.append_ne _ _)
  · rw [htext] at heq
    exact absurd heq (hword.append_ne _ _)

theorem baseReads_operator {tree : Tree} (htree : IsPlain tree)
    (hoperator : isOperator tree.kind = true)
    (hchildren : ∀ child ∈ tree.children, OperandReads child) : BaseReads tree := by
  intro other rest otherRest hother hotherKind hrest hotherRest heq
  rw [operandText_operator htree hoperator] at heq
  obtain ⟨otherDigit, otherText, hotherWord, htext, -⟩ | ⟨hotherOperator, htext⟩ |
    ⟨inner, -, htext, -⟩ := base_cases hother hotherKind
  · rw [htext] at heq
    exact absurd heq.symm (hotherWord.append_ne _ _)
  · rw [htext] at heq
    simp only [List.cons_append, List.append_assoc, List.cons.injEq, true_and] at heq
    have hinner := operator_append_inj htree hother hoperator hotherOperator hchildren
      (startsOutside_cons.2 rfl) (startsOutside_cons.2 rfl) heq
    simpa using hinner
  · rw [htext] at heq
    simp only [List.cons_append, List.append_assoc, List.cons.injEq, true_and] at heq
    obtain ⟨char, more, hstart, hchar⟩ := exists_topText_eq_cons htree hoperator
    exact absurd heq (star_cons_ne hstart hchar _ _)

theorem baseReads_dereference {label : Option String} {span : Option Span} {inner : Tree}
    (hlabel : Kind.dereference.textOr label = none) (hinner : IsPlain inner)
    (hread : OperandReads inner) : BaseReads (.node .dereference label span [inner]) := by
  intro other rest otherRest hother hotherKind hrest hotherRest heq
  rw [operandText_dereference hinner] at heq
  obtain ⟨otherDigit, otherText, hotherWord, htext, -⟩ | ⟨hotherOperator, htext⟩ |
    ⟨otherInner, hotherInner, htext, hcontent⟩ := base_cases hother hotherKind
  · rw [htext] at heq
    exact absurd heq.symm (hotherWord.append_ne _ _)
  · rw [htext] at heq
    simp only [List.cons_append, List.append_assoc, List.cons.injEq, true_and] at heq
    obtain ⟨char, more, hstart, hchar⟩ := exists_topText_eq_cons hother hotherOperator
    exact absurd heq.symm (star_cons_ne hstart hchar _ _)
  · rw [htext] at heq
    simp only [List.cons_append, List.append_assoc, List.cons.injEq, true_and] at heq
    obtain ⟨hcontents, hend⟩ := hread.space hotherInner heq
    refine ⟨?_, by simpa using hend⟩
    rw [hcontent, Tree.content_node, hlabel, List.map_cons, hcontents, List.map_nil]

end Bases

section Followers

variable {rest otherRest : List Char}

def moreArguments (arguments : List Tree) : List Char :=
  arguments.flatMap fun argument => ',' :: ' ' :: operandText argument

theorem intercalate_arguments (argument : Tree) (arguments : List Tree) :
    [',', ' '].intercalate ((argument :: arguments).map operandText) =
      operandText argument ++ moreArguments arguments := by
  induction arguments generalizing argument with
  | nil => simp [moreArguments]
  | cons next arguments ih =>
    simp only [List.map_cons] at ih ⊢
    rw [List.intercalate_cons_cons, ih]
    simp [moreArguments]

theorem stops_moreArguments (arguments : List Tree) :
    Stops (moreArguments arguments ++ ' ' :: ')' :: rest) := by
  cases arguments with
  | nil => exact startsOutside_cons.2 rfl
  | cons argument arguments => exact startsOutside_cons.2 rfl

theorem moreArguments_append_inj {arguments others : List Tree}
    (hreads : ∀ argument ∈ arguments, OperandReads argument)
    (hothers : ∀ other ∈ others, IsPlain other)
    (heq : moreArguments arguments ++ ' ' :: ')' :: rest =
      moreArguments others ++ ' ' :: ')' :: otherRest) :
    arguments.map Tree.content = others.map Tree.content ∧ rest = otherRest := by
  induction arguments generalizing others with
  | nil =>
    cases others with
    | nil => simpa [moreArguments] using heq
    | cons other others => simp [moreArguments] at heq
  | cons argument arguments ih =>
    cases others with
    | nil => simp [moreArguments] at heq
    | cons other others =>
      obtain ⟨hread, hreadTail⟩ := List.forall_mem_cons.1 hreads
      obtain ⟨hother, hotherTail⟩ := List.forall_mem_cons.1 hothers
      simp only [moreArguments, List.flatMap_cons, List.cons_append, List.append_assoc,
        List.cons.injEq, true_and] at heq
      obtain ⟨hcontent, hremaining⟩ :=
        hread hother (stops_moreArguments arguments) (stops_moreArguments others) heq
      obtain ⟨hcontents, hend⟩ := ih hreadTail hotherTail hremaining
      exact ⟨by rw [List.map_cons, List.map_cons, hcontent, hcontents], hend⟩

/-- An argument does not start with the space before the closing parenthesis. -/
theorem space_cons_ne {argument : Tree} (hargument : IsPlain argument) (more : List Char) :
    operandText argument ++ more ≠ ' ' :: rest := by
  intro heq
  obtain ⟨char, text, htext, hchar⟩ := exists_operandText_eq_cons hargument
  rw [htext, List.cons_append, List.cons.injEq] at heq
  rw [heq.1] at hchar
  cases hchar

/-- Arguments can be told apart up to the closing parenthesis. -/
theorem arguments_append_inj {arguments others : List Tree}
    (hreads : ∀ argument ∈ arguments, OperandReads argument)
    (harguments : ∀ argument ∈ arguments, IsPlain argument)
    (hothers : ∀ other ∈ others, IsPlain other)
    (heq : [',', ' '].intercalate (arguments.map operandText) ++ ' ' :: ')' :: rest =
      [',', ' '].intercalate (others.map operandText) ++ ' ' :: ')' :: otherRest) :
    arguments.map Tree.content = others.map Tree.content ∧ rest = otherRest := by
  cases arguments with
  | nil =>
    cases others with
    | nil => simpa using heq
    | cons other others =>
      rw [intercalate_arguments, List.append_assoc] at heq
      exact absurd heq.symm (space_cons_ne (hothers other List.mem_cons_self) _)
  | cons argument arguments =>
    rw [intercalate_arguments, List.append_assoc] at heq
    cases others with
    | nil => exact absurd heq (space_cons_ne (harguments argument List.mem_cons_self) _)
    | cons other others =>
      obtain ⟨hread, hreadTail⟩ := List.forall_mem_cons.1 hreads
      obtain ⟨hother, hotherTail⟩ := List.forall_mem_cons.1 hothers
      rw [intercalate_arguments, List.append_assoc] at heq
      obtain ⟨hcontent, hremaining⟩ :=
        hread hother (stops_moreArguments arguments) (stops_moreArguments others) heq
      obtain ⟨hcontents, hend⟩ := moreArguments_append_inj hreadTail hotherTail hremaining
      exact ⟨by rw [List.map_cons, List.map_cons, hcontent, hcontents], hend⟩

variable {label : Option String} {span : Option Span}

theorem followerReads_arguments {arguments : List Tree}
    (hlabel : Kind.argumentList.textOr label = none)
    (harguments : ∀ argument ∈ arguments, IsPlain argument)
    (hreads : ∀ argument ∈ arguments, OperandReads argument) :
    FollowerReads (.node .argumentList label span arguments) := by
  intro other rest otherRest hother hrest hotherRest heq
  rw [operandText_arguments harguments] at heq
  cases hother with
  | @arguments otherLabel _ _ hothers hotherNode =>
    have hotherLabel : Kind.argumentList.textOr otherLabel = none := hotherNode
    rw [operandText_arguments hothers] at heq
    simp only [List.cons_append, List.append_assoc, List.nil_append, List.cons.injEq,
      true_and] at heq
    obtain ⟨hcontents, hend⟩ := arguments_append_inj hreads harguments hothers heq
    exact ⟨by rw [Tree.content_node, Tree.content_node, hlabel, hotherLabel, hcontents], hend⟩
  | element hindex => simp [operandText_element hindex] at heq
  | selector hkind hname hnode =>
    have hotherLabel := textOr_of_selector hkind hnode
    obtain rfl | rfl := hkind <;> simp [operandText_selector _ hotherLabel hname] at heq
  | count hkind hnode =>
    have hotherLabel := textOr_of_count hkind hnode
    obtain rfl | rfl := hkind <;> simp [operandText_count _ hotherLabel] at heq

theorem followerReads_element {index : Tree}
    (hlabel : Kind.elementSelection.textOr label = none) (hindex : IsPlain index)
    (hread : OperandReads index) : FollowerReads (.node .elementSelection label span [index]) := by
  intro other rest otherRest hother hrest hotherRest heq
  rw [operandText_element hindex] at heq
  cases hother with
  | arguments hothers => simp [operandText_arguments hothers] at heq
  | @element otherLabel _ _ hotherIndex hotherNode =>
    have hotherLabel : Kind.elementSelection.textOr otherLabel = none := hotherNode
    rw [operandText_element hotherIndex] at heq
    simp only [List.cons_append, List.append_assoc, List.nil_append, List.cons.injEq,
      true_and] at heq
    obtain ⟨hcontent, hend⟩ :=
      hread hotherIndex (startsOutside_cons.2 rfl) (startsOutside_cons.2 rfl) heq
    refine ⟨?_, by simpa using hend⟩
    simp only [Tree.content_node, hlabel, hotherLabel, List.map_cons, hcontent]
  | selector hkind hname hnode =>
    have hotherLabel := textOr_of_selector hkind hnode
    obtain rfl | rfl := hkind <;> simp [operandText_selector _ hotherLabel hname] at heq
  | count hkind hnode =>
    have hotherLabel := textOr_of_count hkind hnode
    obtain rfl | rfl := hkind <;> simp [operandText_count _ hotherLabel] at heq

/-- A selected member is a name, so it is no chain. -/
theorem kind_ne_of_selector {kind : Kind} {name : Tree} (hkind : kind = .dot ∨ kind = .arrow)
    (hnode : IsPlainNode (.node kind label span [name])) : name.kind ≠ .postfixChain := by
  have hname : name.kind = .identifier := by
    obtain rfl | rfl := hkind <;> simpa using hnode.2
  simp [hname]

theorem followerReads_selector {kind : Kind} {name : Tree} (hkind : kind = .dot ∨ kind = .arrow)
    (hlabel : kind.textOr label = kind.spelling?) (hname : IsPlain name)
    (hread : BaseReads name) : FollowerReads (.node kind label span [name]) := by
  intro other rest otherRest hother hrest hotherRest heq
  cases hother with
  | arguments hothers =>
    obtain rfl | rfl := hkind <;>
      simp [operandText_selector _ hlabel hname, operandText_arguments hothers] at heq
  | element hindex =>
    obtain rfl | rfl := hkind <;>
      simp [operandText_selector _ hlabel hname, operandText_element hindex] at heq
  | @selector otherKind otherLabel otherSpan otherName hotherKind hotherName hnode =>
    have hotherLabel := textOr_of_selector hotherKind hnode
    have hbase := kind_ne_of_selector hotherKind hnode
    have hnames : kind = otherKind ∧ operandText name ++ rest =
        operandText otherName ++ otherRest := by
      revert heq
      obtain rfl | rfl := hkind <;> obtain rfl | rfl := hotherKind <;>
        simp [operandText_selector _ hlabel hname, operandText_selector _ hotherLabel hotherName]
    obtain ⟨rfl, hnames⟩ := hnames
    obtain ⟨hcontent, hend⟩ := hread hotherName hbase hrest hotherRest hnames
    refine ⟨?_, hend⟩
    simp only [Tree.content_node, List.map_cons, hlabel, hotherLabel, hcontent]
  | count hotherKind hnode =>
    have hotherLabel := textOr_of_count hotherKind hnode
    obtain rfl | rfl := hkind <;> obtain rfl | rfl := hotherKind <;>
      simp [operandText_selector _ hlabel hname, operandText_count _ hotherLabel] at heq

theorem followerReads_count {kind : Kind} (hkind : kind = .plusPlus ∨ kind = .minusMinus)
    (hlabel : kind.textOr label = kind.spelling?) : FollowerReads (.node kind label span []) := by
  intro other rest otherRest hother hrest hotherRest heq
  cases hother with
  | arguments hothers =>
    obtain rfl | rfl := hkind <;>
      simp [operandText_count _ hlabel, operandText_arguments hothers] at heq
  | element hindex =>
    obtain rfl | rfl := hkind <;>
      simp [operandText_count _ hlabel, operandText_element hindex] at heq
  | selector hotherKind hname hnode =>
    have hotherLabel := textOr_of_selector hotherKind hnode
    obtain rfl | rfl := hkind <;> obtain rfl | rfl := hotherKind <;>
      simp [operandText_count _ hlabel, operandText_selector _ hotherLabel hname] at heq
  | @count otherKind otherLabel otherSpan hotherKind hnode =>
    have hotherLabel := textOr_of_count hotherKind hnode
    have hkinds : kind = otherKind ∧ rest = otherRest := by
      revert heq
      obtain rfl | rfl := hkind <;> obtain rfl | rfl := hotherKind <;>
        simp [operandText_count _ hlabel, operandText_count _ hotherLabel]
    obtain ⟨rfl, hend⟩ := hkinds
    refine ⟨?_, hend⟩
    simp only [Tree.content_node, hlabel, hotherLabel]

end Followers

section Expressions

/-- What can be told apart at each place. -/
def Reads : Place → Tree → Prop
  | .operand, tree => OperandReads tree ∧ (tree.kind ≠ .postfixChain → BaseReads tree)
  | .follower, tree => FollowerReads tree

theorem reads_of_baseReads {tree : Tree} (hbase : BaseReads tree) : Reads .operand tree :=
  ⟨operandReads_of_baseReads hbase, fun _ => hbase⟩

/-- Every plain expression can be told from every other by its text. -/
theorem IsExpression.reads {place : Place} {tree : Tree}
    (htree : IsExpression IsPlainNode place tree) : Reads place tree := by
  induction htree with
  | leaf hkind hnode => exact reads_of_baseReads (baseReads_leaf hkind hnode)
  | binary hleft hright hnode ihleft ihright =>
    refine reads_of_baseReads (baseReads_operator (.binary hleft hright hnode) rfl ?_)
    simpa using And.intro ihleft.1 ihright.1
  | conditional hcondition hfirst hsecond hnode ihcondition ihfirst ihsecond =>
    refine reads_of_baseReads
      (baseReads_operator (.conditional hcondition hfirst hsecond hnode) rfl ?_)
    simpa using And.intro ihcondition.1 (And.intro ihfirst.1 ihsecond.1)
  | unary _ hnode => exact hnode.elim
  | dereference hinner hnode ih =>
    exact reads_of_baseReads (baseReads_dereference hnode hinner ih.1)
  | @chain label span base followers hbase hfollowers hnode ihbase ihfollowers =>
    refine ⟨?_, fun hkind => absurd rfl hkind⟩
    have hlabel : Kind.postfixChain.textOr label = none := hnode.1
    have hbaseKind : base.kind ≠ .postfixChain := by simpa using hnode.2.1
    have hsome : followers ≠ [] := by
      rintro rfl
      simpa using hnode.2.2
    refine operandReads_of_base (ihbase.2 hbaseKind) ihfollowers hfollowers
      (operandText_chain hbase hfollowers) ?_
    rw [if_neg hsome, Tree.content_node, List.map_cons, hlabel]
  | arguments harguments hnode ih =>
    exact followerReads_arguments hnode harguments fun argument hmem => (ih argument hmem).1
  | element hindex hnode ih => exact followerReads_element hnode hindex ih.1
  | selector hkind hname hnode ih =>
    exact followerReads_selector hkind (textOr_of_selector hkind hnode) hname
      (ih.2 (kind_ne_of_selector hkind hnode))
  | count hkind hnode => exact followerReads_count hkind (textOr_of_count hkind hnode)

theorem stops_semicolon (rest : List Char) : Stops (';' :: rest) := startsOutside_cons.2 rfl

/-- A topmost operator is not taken for an expression that is no operator: it has a space
after its first operand, where the other has ended. -/
theorem topText_append_ne {tree other : Tree} (htree : IsPlain tree) (hother : IsPlain other)
    (hoperator : isOperator tree.kind = true) (hotherOperator : isOperator other.kind = false)
    (rest otherRest : List Char) :
    topText tree ++ ';' :: rest ≠ topText other ++ ';' :: otherRest := by
  intro heq
  obtain ⟨first, more, hfirst, htop⟩ := exists_first_operand htree hoperator
  rw [htop, topText_eq_operandText hother hotherOperator, List.append_assoc,
    List.cons_append] at heq
  obtain ⟨-, hend⟩ :=
    hfirst.reads.1 hother (startsOutside_cons.2 rfl) (stops_semicolon otherRest) heq
  simp at hend

/-- Topmost expressions can be told apart by their texts up to a semicolon. -/
theorem topText_append_inj {tree other : Tree} (htree : IsPlain tree) (hother : IsPlain other)
    {rest otherRest : List Char}
    (heq : topText tree ++ ';' :: rest = topText other ++ ';' :: otherRest) :
    tree.content = other.content := by
  cases hoperator : isOperator tree.kind with
  | false =>
    cases hotherOperator : isOperator other.kind with
    | false =>
      rw [topText_eq_operandText htree hoperator,
        topText_eq_operandText hother hotherOperator] at heq
      exact (htree.reads.1 hother (stops_semicolon rest) (stops_semicolon otherRest) heq).1
    | true => exact absurd heq.symm (topText_append_ne hother htree hotherOperator hoperator _ _)
  | true =>
    cases hotherOperator : isOperator other.kind with
    | false => exact absurd heq (topText_append_ne htree hother hoperator hotherOperator _ _)
    | true =>
      have hchildren : ∀ child ∈ tree.children, OperandReads child := by
        cases htree with
        | binary hleft hright => simpa using And.intro hleft.reads.1 hright.reads.1
        | conditional hcondition hfirst hsecond =>
          simpa using And.intro hcondition.reads.1 (And.intro hfirst.reads.1 hsecond.reads.1)
        | leaf hkind => obtain rfl | rfl | rfl := hkind <;> cases hoperator
        | _ => cases hoperator
      exact (operator_append_inj htree hother hoperator hotherOperator hchildren
        (stops_semicolon rest) (stops_semicolon otherRest) heq).1

end Expressions

section Results

variable {tree other : Tree}

/-- Operands have the same text exactly when they have the same content. -/
theorem operandText_eq_iff (htree : IsPlain tree) (hother : IsPlain other) :
    operandText tree = operandText other ↔ tree.content = other.content := by
  constructor
  · intro htext
    have hread := htree.reads.1 hother startsOutside_nil startsOutside_nil
      (congrArg (· ++ []) htext)
    exact hread.1
  · intro hcontent
    exact textIn_eq_of_content_eq hcontent .initial

/-- The line of a statement that is an expression. -/
theorem renderText_statement (htree : IsPlain tree) (span : Option Span) :
    renderText (.node .statement none span [tree]) =
      .ok (String.ofList (topText tree ++ [';', '\n', '\n'])) :=
  renderText_simple htree.renders span

/-- Expressions are unambiguous: they are rendered, alone or as a statement, and their
texts are the same exactly when they are structurally equal. -/
theorem rendered_expressions_unambiguous (htree : IsPlain tree) (hother : IsPlain other)
    (span otherSpan : Option Span) :
    (∃ text otherText, (renderPart tree .initial).result = .ok text ∧
      (renderPart other .initial).result = .ok otherText ∧
      (text = otherText ↔ tree.same other = true)) ∧
    ∃ text otherText, renderText (.node .statement none span [tree]) = .ok text ∧
      renderText (.node .statement none otherSpan [other]) = .ok otherText ∧
      (text = otherText ↔ tree.same other = true) := by
  rw [Tree.same_eq_true_iff]
  constructor
  · refine ⟨_, _, (htree.renders _).result_renderPart, (hother.renders _).result_renderPart, ?_⟩
    rw [String.ofList_inj]
    exact operandText_eq_iff htree hother
  · refine ⟨_, _, renderText_statement htree span, renderText_statement hother otherSpan, ?_⟩
    rw [String.ofList_inj]
    constructor
    · exact topText_append_inj htree hother
    · intro hcontent
      rw [topText, textIn_eq_of_content_eq hcontent]

/-- Expressions that differ in one operator, as statements. -/
theorem rendered_expressions_unambiguous_operator :
    ∃ text otherText,
      renderText (.node .statement none none
        [.node (.binary .plus) none none [.identifier "a", .constant "1"]]) = .ok text ∧
      renderText (.node .statement none none
        [.node (.binary .minus) none none [.identifier "a", .constant "1"]]) = .ok otherText ∧
      text ≠ otherText := by
  have hname : IsPlain (.identifier "a") :=
    .leaf (.inl rfl) ⟨"a", rfl, by simp [isNameChar], 'a', [], by simp, rfl⟩
  have hconstant : IsPlain (.constant "1") :=
    .leaf (.inr (.inl rfl)) ⟨"1", rfl, by simp [isNameChar], '1', [], by simp, rfl⟩
  have hplus : IsPlain (.node (.binary .plus) none none [.identifier "a", .constant "1"]) :=
    .binary hname hconstant rfl
  have hminus : IsPlain (.node (.binary .minus) none none [.identifier "a", .constant "1"]) :=
    .binary hname hconstant rfl
  obtain ⟨-, text, otherText, htext, hotherText, hiff⟩ :=
    rendered_expressions_unambiguous hplus hminus none none
  refine ⟨text, otherText, htext, hotherText, ?_⟩
  rw [Ne, hiff]
  decide

end Results

end NescTree.Render
