import NescTree.Proofs.Render.ExpressionReading
import NescTree.Proofs.Render.Parts

/-!
# Prefix operators next to each other

A prefix operator is written directly before its operand, also where the operand starts
with another prefix operator.  So two signs are written like an increment or a decrement.
Nothing else is lost: expressions of names, binary and prefix operators have the same text
exactly when they are the same once every increment and every decrement is split into two
signs.
-/

namespace NescTree.Render

open Text

/-- The characters of names: any that no operator in front of a name, no parenthesis and no
space between operands has. -/
def isPlainChar (char : Char) : Bool := !" ()+-&~!".toList.contains char

theorem isPlainChar_of_isAlphanum {char : Char} (hchar : char.isAlphanum = true) :
    isPlainChar char = true := by
  rw [isPlainChar, Bool.not_eq_true', List.contains_eq_mem, decide_eq_false_iff_not]
  intro hmem
  have hnone : " ()+-&~!".toList.all (!·.isAlphanum) = true := by decide +kernel
  have hother := List.all_eq_true.1 hnone char hmem
  rw [hchar] at hother
  cases hother

def IsPlainName (text : String) : Prop :=
  text.toList ≠ [] ∧ ∀ char ∈ text.toList, isPlainChar char = true

theorem isPlainName_of_isAlphanum {text : String} (hsome : text.toList ≠ [])
    (halphanum : ∀ char ∈ text.toList, char.isAlphanum = true) : IsPlainName text :=
  ⟨hsome, fun char hchar => isPlainChar_of_isAlphanum (halphanum char hchar)⟩

/-- Expressions of names, binary operators and those prefix operators that are permitted. -/
inductive IsPrefixedBy (permits : UnaryOperator → Prop) : Tree → Prop where
  | name {text : String} {span : Option Span} (hname : IsPlainName text) :
      IsPrefixedBy permits (.node .identifier (some text) span [])
  | binary {operator : BinaryOperator} {label : Option String} {span : Option Span}
      {left right : Tree}
      (hlabel : (Kind.binary operator).textOr label = some operator.spelling)
      (hleft : IsPrefixedBy permits left) (hright : IsPrefixedBy permits right) :
      IsPrefixedBy permits (.node (.binary operator) label span [left, right])
  | unary {operator : UnaryOperator} {span : Option Span} {inner : Tree}
      (hoperator : permits operator) (hinner : IsPrefixedBy permits inner) :
      IsPrefixedBy permits (.node (.unary operator) none span [inner])

abbrev IsPrefixed : Tree → Prop := IsPrefixedBy fun _ => True

section Splitting

/-- The sign that an increment or a decrement is written as two of. -/
def halfSign? : Kind → Option Kind
  | .unary .preIncrement => some (.unary .unaryPlus)
  | .unary .preDecrement => some (.unary .unaryMinus)
  | _ => none

/-- A node, where an increment or a decrement becomes two signs. -/
def splitNode (kind : Kind) (label : Option String) (span : Option Span)
    (children : List Tree) : Tree :=
  match halfSign? kind with
  | some sign => .node sign label span [.node sign label span children]
  | none => .node kind label span children

mutual

/-- A tree with all its increments and decrements split into two signs. -/
def splitSigns : Tree → Tree
  | .node kind label span children => splitNode kind label span (splitSignsAll children)

def splitSignsAll : List Tree → List Tree
  | [] => []
  | tree :: trees => splitSigns tree :: splitSignsAll trees

end

abbrev IsSplit : Tree → Prop := IsPrefixedBy fun operator => halfSign? (.unary operator) = none

theorem isSplit_splitSigns {tree : Tree} (htree : IsPrefixed tree) :
    IsSplit (splitSigns tree) := by
  induction htree with
  | name hname => exact .name hname
  | binary hlabel _ _ hleft hright => exact .binary hlabel hleft hright
  | @unary operator _ _ _ _ hinner =>
    cases operator with
    | preIncrement | preDecrement => exact .unary rfl (.unary rfl hinner)
    | _ => exact .unary rfl hinner

end Splitting

section Texts

variable {permits : UnaryOperator → Prop} {label : Option String} {span : Option Span}

theorem IsPrefixedBy.renders {tree : Tree} (htree : IsPrefixedBy permits tree) :
    Renders tree := by
  induction htree with
  | name => exact renders_of_writes fun _ => writes_leaf _ (.inl rfl)
  | binary hlabel _ _ hleft hright =>
    exact renders_of_writes fun _ => writes_binary hlabel (hleft _) (hright _)
  | unary _ _ hinner => exact renders_of_writes fun _ => writes_unary (hinner _)

theorem operandText_name (text : String) :
    operandText (.node .identifier (some text) span []) = text.toList :=
  (writes_leaf text (.inl rfl)).textIn_eq

theorem operandText_binary {operator : BinaryOperator} {left right : Tree}
    (hlabel : (Kind.binary operator).textOr label = some operator.spelling)
    (hleft : Renders left) (hright : Renders right) :
    operandText (.node (.binary operator) label span [left, right]) =
      '(' :: ' ' :: (operandText left ++ ' ' :: (operator.spelling.toList ++
        ' ' :: (operandText right ++ [' ', ')']))) := by
  calc operandText (.node (.binary operator) label span [left, right])
      = enclosed false (operandText left ++ ' ' :: (operator.spelling.toList ++
          ' ' :: operandText right)) :=
        (writes_binary hlabel (hleft _) (hright _)).textIn_eq
    _ = _ := by simp

theorem operandText_unary {operator : UnaryOperator} {inner : Tree} (hinner : Renders inner) :
    operandText (.node (.unary operator) label span [inner]) =
      operator.symbol.toList ++ operandText inner :=
  (writes_unary (hinner _)).textIn_eq

/-- An increment or a decrement is written as two signs. -/
theorem operandText_splitNode (operator : UnaryOperator) {inner : Tree}
    (hinner : Renders inner) :
    operandText (splitNode (.unary operator) label span [inner]) =
      operator.symbol.toList ++ operandText inner := by
  have htwice : ∀ sign : UnaryOperator,
      operandText (.node (.unary sign) label span [.node (.unary sign) label span [inner]]) =
        sign.symbol.toList ++ (sign.symbol.toList ++ operandText inner) := by
    intro sign
    rw [operandText_unary (renders_of_writes fun _ => writes_unary (hinner _)),
      operandText_unary hinner]
  cases operator with
  | preIncrement => exact htwice .unaryPlus
  | preDecrement => exact htwice .unaryMinus
  | _ => exact operandText_unary hinner

/-- Splitting increments and decrements does not change what is written. -/
theorem operandText_splitSigns {tree : Tree} (htree : IsPrefixed tree) :
    operandText (splitSigns tree) = operandText tree := by
  induction htree with
  | name => rfl
  | binary hlabel hleft hright ihleft ihright =>
    rw [operandText_binary hlabel hleft.renders hright.renders, ← ihleft, ← ihright]
    exact operandText_binary hlabel (isSplit_splitSigns hleft).renders
      (isSplit_splitSigns hright).renders
  | @unary operator _ _ _ hinner ih =>
    rw [operandText_unary hinner.renders, ← ih]
    exact operandText_splitNode operator (isSplit_splitSigns hinner).renders

end Texts

section Reading

variable {label : Option String} {span : Option Span}

/-- An expression without increments and decrements can be told from every other, whatever
is written after it that does not make a name longer. -/
def SplitReads (tree : Tree) : Prop :=
  ∀ ⦃other : Tree⦄ ⦃rest otherRest : List Char⦄, IsSplit other →
    StartsOutside isPlainChar rest → StartsOutside isPlainChar otherRest →
    operandText tree ++ rest = operandText other ++ otherRest →
    tree.content = other.content ∧ rest = otherRest

theorem symbol_injective {operator other : UnaryOperator}
    (hsymbol : operator.symbol = other.symbol) : operator = other := by
  have hnodup : (UnaryOperator.all.map UnaryOperator.symbol).Nodup := by decide +kernel
  exact List.inj_on_of_nodup_map hnodup operator.mem_all other.mem_all hsymbol

/-- Without increments and decrements, a prefix operator is a single character. -/
theorem exists_symbol_eq {operator : UnaryOperator}
    (hoperator : halfSign? (.unary operator) = none) :
    ∃ char, operator.symbol.toList = [char] ∧ isPlainChar char = false ∧ char ≠ '(' := by
  cases operator with
  | preIncrement | preDecrement => cases hoperator
  | _ => exact ⟨_, rfl, rfl, by decide⟩

/-- A name is not taken for anything else. -/
theorem name_append_ne {text : String} (hname : IsPlainName text) {char : Char}
    (hchar : isPlainChar char = false) (rest more : List Char) :
    text.toList ++ rest ≠ char :: more := by
  obtain ⟨hsome, hplain⟩ := hname
  obtain ⟨first, others, htext⟩ := List.exists_cons_of_ne_nil hsome
  intro heq
  rw [htext, List.cons_append, List.cons.injEq] at heq
  have hfirst := hplain first (by simp [htext])
  rw [heq.1, hchar] at hfirst
  cases hfirst

theorem splitReads_name {text : String} (hname : IsPlainName text) :
    SplitReads (.node .identifier (some text) span []) := by
  intro other rest otherRest hother hrest hotherRest heq
  rw [operandText_name] at heq
  cases hother with
  | name hotherName =>
    rw [operandText_name] at heq
    obtain ⟨htexts, hend⟩ := run_append_inj hname.2 hotherName.2 hrest hotherRest heq
    exact ⟨by rw [String.toList_injective htexts, Tree.content_node, Tree.content_node], hend⟩
  | binary hlabel hleft hright =>
    rw [operandText_binary hlabel hleft.renders hright.renders] at heq
    exact absurd heq (name_append_ne hname rfl _ _)
  | unary hoperator hinner =>
    obtain ⟨char, hsymbol, hchar, -⟩ := exists_symbol_eq hoperator
    rw [operandText_unary hinner.renders, hsymbol] at heq
    exact absurd heq (name_append_ne hname hchar _ _)

theorem splitReads_binary {operator : BinaryOperator} {left right : Tree}
    (hlabel : (Kind.binary operator).textOr label = some operator.spelling)
    (hleft : IsSplit left) (hright : IsSplit right) (hleftReads : SplitReads left)
    (hrightReads : SplitReads right) :
    SplitReads (.node (.binary operator) label span [left, right]) := by
  intro other rest otherRest hother hrest hotherRest heq
  rw [operandText_binary hlabel hleft.renders hright.renders] at heq
  cases hother with
  | name hname =>
    rw [operandText_name] at heq
    exact absurd heq.symm (name_append_ne hname rfl _ _)
  | binary hotherLabel hotherLeft hotherRight =>
    rw [operandText_binary hotherLabel hotherLeft.renders hotherRight.renders] at heq
    simp only [List.cons_append, List.append_assoc, List.cons.injEq, true_and] at heq
    obtain ⟨hlefts, hafter⟩ := hleftReads hotherLeft (startsOutside_cons.2 rfl)
      (startsOutside_cons.2 rfl) heq
    obtain ⟨hsymbols, hremaining⟩ := append_cons_inj (space_notMem_spelling _)
      (space_notMem_spelling _) (List.cons.inj hafter).2
    obtain ⟨hrights, hend⟩ := hrightReads hotherRight (startsOutside_cons.2 rfl)
      (startsOutside_cons.2 rfl) hremaining
    obtain rfl := spelling_injective (String.toList_injective hsymbols)
    refine ⟨?_, by simpa using hend⟩
    simp only [Tree.content_node, hlabel, hotherLabel, List.map_cons, hlefts, hrights]
  | unary hoperator hinner =>
    obtain ⟨char, hsymbol, -, hchar⟩ := exists_symbol_eq hoperator
    rw [operandText_unary hinner.renders, hsymbol] at heq
    exact absurd (List.cons.inj heq).1.symm hchar

theorem splitReads_unary {operator : UnaryOperator} {inner : Tree}
    (hoperator : halfSign? (.unary operator) = none) (hinner : IsSplit inner)
    (hreads : SplitReads inner) : SplitReads (.node (.unary operator) none span [inner]) := by
  intro other rest otherRest hother hrest hotherRest heq
  obtain ⟨char, hsymbol, hplain, hchar⟩ := exists_symbol_eq hoperator
  rw [operandText_unary hinner.renders, hsymbol] at heq
  cases hother with
  | name hname =>
    rw [operandText_name] at heq
    exact absurd heq.symm (name_append_ne hname hplain _ _)
  | binary hlabel hleft hright =>
    rw [operandText_binary hlabel hleft.renders hright.renders] at heq
    exact absurd (List.cons.inj heq).1 hchar
  | unary hother hotherInner =>
    obtain ⟨otherChar, hotherSymbol, -, -⟩ := exists_symbol_eq hother
    rw [operandText_unary hotherInner.renders, hotherSymbol] at heq
    obtain ⟨rfl, hremaining⟩ := List.cons.inj heq
    obtain rfl := symbol_injective (String.toList_injective (hsymbol.trans hotherSymbol.symm))
    obtain ⟨hcontent, hend⟩ := hreads hotherInner hrest hotherRest hremaining
    exact ⟨by simp only [Tree.content_node, List.map_cons, hcontent], hend⟩

theorem IsPrefixedBy.splitReads {tree : Tree} (htree : IsSplit tree) : SplitReads tree := by
  induction htree with
  | name hname => exact splitReads_name hname
  | binary hlabel hleft hright ihleft ihright =>
    exact splitReads_binary hlabel hleft hright ihleft ihright
  | unary hoperator hinner ih => exact splitReads_unary hoperator hinner ih

/-- Expressions have the same text exactly when they are the same up to splitting. -/
theorem operandText_eq_iff_splitSigns {tree other : Tree} (htree : IsPrefixed tree)
    (hother : IsPrefixed other) :
    operandText tree = operandText other ↔
      (splitSigns tree).content = (splitSigns other).content := by
  rw [← operandText_splitSigns htree, ← operandText_splitSigns hother]
  constructor
  · intro htext
    have hread := (isSplit_splitSigns htree).splitReads (isSplit_splitSigns hother)
      startsOutside_nil startsOutside_nil (congrArg (· ++ []) htext)
    exact hread.1
  · intro hcontent
    exact textIn_eq_of_content_eq hcontent .initial

end Reading

section Signs

/-- The sign that a sign, an increment or a decrement consists of. -/
def sign? : Kind → Option Kind
  | .unary .preIncrement | .unary .unaryPlus => some (.unary .unaryPlus)
  | .unary .preDecrement | .unary .unaryMinus => some (.unary .unaryMinus)
  | _ => none

/-- Whether no sign, increment or decrement has one of the same sign as its operand. -/
def SignsApart (tree : Tree) : Prop :=
  ∀ node ∈ tree.walk, ∀ sign ∈ sign? node.kind, ∀ child ∈ node.children,
    sign? child.kind ≠ some sign

instance (tree : Tree) : Decidable (SignsApart tree) :=
  inferInstanceAs (Decidable (∀ node ∈ tree.walk, _))

variable {tree other : Tree}

theorem SignsApart.child {child : Tree} (hapart : SignsApart tree)
    (hchild : child ∈ tree.children) : SignsApart child :=
  fun node hnode => hapart node (Tree.mem_walk_of_child hchild hnode)

/-- What a split tree starts with. -/
theorem kind_splitSigns (tree : Tree) :
    (splitSigns tree).kind = (halfSign? tree.kind).getD tree.kind := by
  obtain ⟨kind, label, span, children⟩ := tree
  rw [splitSigns, splitNode, Tree.kind]
  cases halfSign? kind <;> rfl

theorem kind_eq_of_splitSigns
    (hsplit : (splitSigns tree).content = (splitSigns other).content) :
    (halfSign? tree.kind).getD tree.kind = (halfSign? other.kind).getD other.kind := by
  rw [← kind_splitSigns, ← kind_splitSigns, ← Tree.kind_content, hsplit, Tree.kind_content]

theorem sign?_of_halfSign? {kind sign : Kind} (hhalf : halfSign? kind = some sign) :
    sign? kind = some sign ∧ sign? sign = some sign := by
  unfold halfSign? at hhalf
  split at hhalf
  · cases hhalf
    exact ⟨rfl, rfl⟩
  · cases hhalf
    exact ⟨rfl, rfl⟩
  · cases hhalf

theorem halfSign?_inj {kind otherKind sign : Kind} (hhalf : halfSign? kind = some sign)
    (hother : halfSign? otherKind = some sign) : kind = otherKind := by
  unfold halfSign? at hhalf hother
  split at hhalf <;> split at hother <;> grind

theorem sign?_of_kind_splitSigns {sign : Kind} (hsign : sign? sign = some sign)
    (hkind : (splitSigns tree).kind = sign) : sign? tree.kind = some sign := by
  rw [kind_splitSigns] at hkind
  cases hhalf : halfSign? tree.kind with
  | some half =>
    rw [hhalf] at hkind
    obtain rfl : half = sign := hkind
    exact (sign?_of_halfSign? hhalf).1
  | none =>
    rw [hhalf] at hkind
    obtain rfl : tree.kind = sign := hkind
    exact hsign

/-- An increment or a decrement is told from a sign, unless the sign has another one of the
same sign as its operand. -/
theorem splitSigns_ne_of_signsApart {kind otherKind : Kind} {label otherLabel : Option String}
    {span otherSpan : Option Span} {children : List Tree} {otherInner : Tree}
    (hhalf : halfSign? kind ≠ none) (hwhole : halfSign? otherKind = none)
    (hapart : SignsApart (.node otherKind otherLabel otherSpan [otherInner])) :
    (splitSigns (.node kind label span children)).content ≠
      (splitSigns (.node otherKind otherLabel otherSpan [otherInner])).content := by
  intro hcontent
  obtain ⟨sign, hsign⟩ := Option.ne_none_iff_exists'.1 hhalf
  simp only [splitSigns, splitSignsAll, splitNode, hsign, hwhole, Tree.content_node,
    List.map_cons, List.map_nil, Tree.node.injEq, List.cons.injEq, and_true] at hcontent
  obtain ⟨rfl, -, -, hbelow⟩ := hcontent
  have hkind : (splitSigns otherInner).kind = sign := by
    rw [← Tree.kind_content, ← hbelow]
    rfl
  have hself := (sign?_of_halfSign? hsign).2
  exact hapart _ (Tree.mem_walk_self _) sign hself otherInner List.mem_cons_self
    (sign?_of_kind_splitSigns hself hkind)

theorem content_unary_of_splitSigns {operator otherOperator : UnaryOperator}
    {span otherSpan : Option Span} {inner otherInner : Tree}
    (hapart : SignsApart (.node (.unary operator) none span [inner]))
    (hotherApart : SignsApart (.node (.unary otherOperator) none otherSpan [otherInner]))
    (hsplit : (splitSigns (.node (.unary operator) none span [inner])).content =
      (splitSigns (.node (.unary otherOperator) none otherSpan [otherInner])).content) :
    operator = otherOperator ∧ (splitSigns inner).content = (splitSigns otherInner).content := by
  cases hhalf : halfSign? (.unary operator) with
  | none =>
    cases hotherHalf : halfSign? (.unary otherOperator) with
    | none =>
      simp only [splitSigns, splitSignsAll, splitNode, hhalf, hotherHalf, Tree.content_node,
        List.map_cons, List.map_nil, Tree.node.injEq, List.cons.injEq, Kind.unary.injEq,
        and_true] at hsplit
      exact ⟨hsplit.1, hsplit.2.2.2⟩
    | some _ =>
      exact absurd hsplit.symm (splitSigns_ne_of_signsApart (by simp [hotherHalf]) hhalf hapart)
  | some sign =>
    cases hotherHalf : halfSign? (.unary otherOperator) with
    | none =>
      exact absurd hsplit (splitSigns_ne_of_signsApart (by simp [hhalf]) hotherHalf hotherApart)
    | some otherSign =>
      simp only [splitSigns, splitSignsAll, splitNode, hhalf, hotherHalf, Tree.content_node,
        List.map_cons, List.map_nil, Tree.node.injEq, List.cons.injEq, and_true] at hsplit
      obtain ⟨rfl, -, -, -, -, -, hinner⟩ := hsplit
      exact ⟨Kind.unary.inj (halfSign?_inj hhalf hotherHalf), hinner⟩

theorem content_binary_of_splitSigns {operator otherOperator : BinaryOperator}
    {label otherLabel : Option String} {span otherSpan : Option Span}
    {left right otherLeft otherRight : Tree}
    (hsplit : (splitSigns (.node (.binary operator) label span [left, right])).content =
      (splitSigns (.node (.binary otherOperator) otherLabel otherSpan
        [otherLeft, otherRight])).content) :
    operator = otherOperator ∧ (splitSigns left).content = (splitSigns otherLeft).content ∧
      (splitSigns right).content = (splitSigns otherRight).content := by
  simp only [splitSigns, splitSignsAll, splitNode, halfSign?, Tree.content_node, List.map_cons,
    List.map_nil, Tree.node.injEq, List.cons.injEq, Kind.binary.injEq, and_true] at hsplit
  exact ⟨hsplit.1, hsplit.2.2.2⟩

/-- Where signs stand apart, splitting increments and decrements loses nothing. -/
theorem content_eq_of_splitSigns (htree : IsPrefixed tree) (hother : IsPrefixed other)
    (hapart : SignsApart tree) (hotherApart : SignsApart other)
    (hsplit : (splitSigns tree).content = (splitSigns other).content) :
    tree.content = other.content := by
  induction htree generalizing other with
  | name =>
    have hkinds := kind_eq_of_splitSigns hsplit
    cases hother with
    | name => exact hsplit
    | binary => cases hkinds
    | @unary operator => cases operator <;> cases hkinds
  | binary hlabel _ _ ihleft ihright =>
    have hkinds := kind_eq_of_splitSigns hsplit
    cases hother with
    | name => cases hkinds
    | binary hotherLabel hotherLeft hotherRight =>
      obtain ⟨rfl, hleft, hright⟩ := content_binary_of_splitSigns hsplit
      have hlefts := ihleft hotherLeft (hapart.child (by simp [Tree.children]))
        (hotherApart.child (by simp [Tree.children])) hleft
      have hrights := ihright hotherRight (hapart.child (by simp [Tree.children]))
        (hotherApart.child (by simp [Tree.children])) hright
      simp only [Tree.content_node, hlabel, hotherLabel, List.map_cons, hlefts, hrights]
    | @unary operator => cases operator <;> cases hkinds
  | @unary operator _ _ _ _ ih =>
    have hkinds := kind_eq_of_splitSigns hsplit
    cases hother with
    | unary _ hotherInner =>
      obtain ⟨rfl, hinner⟩ := content_unary_of_splitSigns hapart hotherApart hsplit
      have hcontent := ih hotherInner (hapart.child List.mem_cons_self)
        (hotherApart.child List.mem_cons_self) hinner
      simp only [Tree.content_node, List.map_cons, hcontent]
    | _ => cases operator <;> cases hkinds

end Signs

section Results

variable {tree other : Tree}

/-- Expressions of names, binary operators and prefix operators are rendered.  Their texts
are the same exactly when they are the same once increments and decrements are split into
two signs.  Where signs stand apart, their texts are the same exactly when they are
structurally equal. -/
theorem prefix_operators_text_eq_iff (htree : IsPrefixed tree) (hother : IsPrefixed other) :
    ∃ text otherText, (renderPart tree .initial).result = .ok text ∧
      (renderPart other .initial).result = .ok otherText ∧
      (text = otherText ↔ (splitSigns tree).same (splitSigns other) = true) ∧
      (SignsApart tree → SignsApart other → (text = otherText ↔ tree.same other = true)) := by
  refine ⟨_, _, (htree.renders _).result_renderPart, (hother.renders _).result_renderPart,
    ?_, fun hapart hotherApart => ?_⟩
  · rw [String.ofList_inj, Tree.same_eq_true_iff]
    exact operandText_eq_iff_splitSigns htree hother
  · rw [String.ofList_inj, Tree.same_eq_true_iff]
    constructor
    · intro htext
      exact content_eq_of_splitSigns htree hother hapart hotherApart
        ((operandText_eq_iff_splitSigns htree hother).1 htext)
    · intro hcontent
      exact textIn_eq_of_content_eq hcontent .initial

/-- The texts `-!--a` and `--!-a` are told apart. -/
theorem prefix_operators_text_eq_iff_not :
    let first : Tree := .node (.unary .unaryMinus) none none
      [.node (.unary .not) none none
        [.node (.unary .preDecrement) none none [.identifier "a"]]]
    let second : Tree := .node (.unary .preDecrement) none none
      [.node (.unary .not) none none
        [.node (.unary .unaryMinus) none none [.identifier "a"]]]
    SignsApart first ∧ SignsApart second ∧
      ∃ text otherText, (renderPart first .initial).result = .ok text ∧
        (renderPart second .initial).result = .ok otherText ∧ text ≠ otherText := by
  intro first second
  have hname : IsPrefixed (.identifier "a") := .name (isPlainName_of_isAlphanum (by simp) (by simp))
  have hfirst : IsPrefixed first :=
    .unary trivial (.unary trivial (.unary trivial hname))
  have hsecond : IsPrefixed second :=
    .unary trivial (.unary trivial (.unary trivial hname))
  have hfirstApart : SignsApart first := by decide
  have hsecondApart : SignsApart second := by decide
  obtain ⟨text, otherText, htext, hotherText, -, hiff⟩ :=
    prefix_operators_text_eq_iff hfirst hsecond
  refine ⟨hfirstApart, hsecondApart, text, otherText, htext, hotherText, ?_⟩
  rw [Ne, hiff hfirstApart hsecondApart]
  decide

/-- The text `--a` is that of a decrement and that of two signs. -/
theorem adjacent_signs_same_text :
    let twice : Tree := .node (.unary .unaryMinus) none none
      [.node (.unary .unaryMinus) none none [.identifier "a"]]
    let decrement : Tree := .node (.unary .preDecrement) none none [.identifier "a"]
    IsPrefixed twice ∧ IsPrefixed decrement ∧
      (renderPart twice .initial).result = .ok "--a" ∧
      (renderPart decrement .initial).result = .ok "--a" ∧ twice.same decrement = false := by
  intro twice decrement
  have hname : IsPrefixed (.identifier "a") := .name (isPlainName_of_isAlphanum (by simp) (by simp))
  exact ⟨.unary trivial (.unary trivial hname), .unary trivial hname, rfl, rfl, by decide⟩

end Results

end NescTree.Render
