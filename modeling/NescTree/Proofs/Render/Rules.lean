import NescTree.Proofs.Render.Composition

/-!
# The rules of all nodes

Every rule puts its program together as said: family by family, and in each family kind
by kind.  The proof of a kind follows the program of its rule part by part.  That the
uses are apart and that each fits its edge is then a matter of computation.
-/

namespace NescTree.Render

open Text

attribute [local simp] changeInside Scope.change Edge.change Edge.levels Edge.controlLevels
  Edge.bare? Edge.countDeclarators List.pairwise_append

variable {tree : Tree} {scopes : List Scope} {stack : List Char}

/-- Children in a range fit if the scopes around them do what their edges say. -/
theorem forall_fits_usesFrom {start count : Nat} (hkind : tree.kind ≠ .connection)
    (hedge : ∀ index child, start ≤ index → index < start + count →
      tree.children[index]? = some child → ∀ state,
        changeInside scopes state = (Edge.mk tree index child).change state) :
    ∀ use ∈ usesFrom scopes start count, use.Fits tree :=
  forall_mem_usesFrom.2 fun index hstart hend =>
    ⟨fun hconnection => absurd hconnection hkind, fun child => hedge index child hstart hend⟩

section Declarations

/-- Children that are each followed by a space. -/
theorem Composed.spaced :
    Composed tree scopes (usesFrom scopes 0 tree.children.length) stack stack
      (.seq ((view tree).docs.map fun doc => .seq [doc, " "])) := by
  rw [Node.docs, List.map_map]
  exact .seq (.each fun _ _ hchild _ => .final (.child hchild) (.lit rfl .nil))

theorem Composed.specified :
    Composed tree scopes (usesFrom scopes 0 tree.children.length) stack stack
      (specified (view tree)) := by
  refine .seq (.each fun _ _ hchild _ => ?_)
  split
  · exact .final (.child hchild) (.lit rfl .nil)
  · exact .child hchild

/-- Where the members of a type start: at its first child, or after its name. -/
def memberStart (tree : Tree) (member : Kind) : Nat :=
  if tree.children.head?.map Tree.kind = some member then 0 else 1

theorem memberStart_of_child {child : Tree} (hchild : tree.children[0]? = some child)
    (member : Kind) : memberStart tree member = if child.kind = member then 0 else 1 := by
  simp [memberStart, List.head?_eq_getElem?, hchild]

/-- Only a first child of another kind comes before the members. -/
theorem lt_memberStart_iff {index : Nat} {child : Tree}
    (hchild : tree.children[index]? = some child) (member : Kind) :
    index < memberStart tree member ↔ index = 0 ∧ child.kind ≠ member := by
  cases index with
  | zero =>
    rw [memberStart_of_child hchild]
    by_cases hkind : child.kind = member <;> simp [hkind]
  | succ index =>
    rw [memberStart]
    split <;> simp

theorem members_view (tree : Tree) (member : Kind) :
    members (view tree) member = (view tree).docs.drop (memberStart tree member) := by
  obtain ⟨kind, label, span, children⟩ := tree
  cases children with
  | nil => simp [members, view, viewParts, Node.docs]
  | cons child children =>
    have hchild : (Tree.node kind label span (child :: children)).children[0]? = some child := rfl
    simp only [members, view, viewParts, Node.docs, memberStart_of_child hchild, kind_toPart]
    split <;> rfl

theorem Composed.tagName {member : Kind} :
    Composed tree scopes (usesFrom scopes 0 (memberStart tree member)) stack stack
      (tagName (view tree) member) := by
  refine .ifChild fun child hchild => ?_
  rw [kind_toPart, memberStart_of_child hchild]
  split
  · exact .nothing
  · exact .final (.child hchild) (.lit rfl .nil)

theorem ComposedEach.members (member : Kind) :
    ComposedEach tree scopes (usesFrom scopes (memberStart tree member)
      (tree.children.length - memberStart tree member)) (members (view tree) member) := by
  rw [members_view]
  exact docsFrom _

/-- The name of a type and its members, inside other scopes. -/
def typeUses (tree : Tree) (member : Kind) (scopes : List Scope) : List Use :=
  usesFrom [] 0 (memberStart tree member) ++
    usesFrom scopes (memberStart tree member) (tree.children.length - memberStart tree member)

theorem pairwise_apart_typeUses (member : Kind) :
    (typeUses tree member scopes).Pairwise Use.Apart := by
  simp [typeUses]
  omega

/-- A structure or union type, whose members are indented. -/
theorem Composed.aggregate :
    Composed tree [] (typeUses tree .declaration [.indented 1]) stack stack
      (aggregate (view tree)) := by
  rw [Render.aggregate, text_view]
  refine .own .ownText (.lit rfl (.cons .tagName (.final ?_ .nil)))
  split
  · exact .fewer .nothing (List.nil_sublist _)
  · exact .lit rfl (.final (.within fun _ => .seq (.members .declaration))
      (.own .margin (.lit rfl .nil)))

theorem Composed.enumeration :
    Composed tree [] (typeUses tree .enumerator []) stack stack (enumeration (view tree)) := by
  refine .lit rfl (.cons .tagName (.final ?_ .nil))
  split
  · exact .fewer .nothing (List.nil_sublist _)
  · exact .lit rfl (.final (.joined (fun _ => rfl) (.members .enumerator)) (.lit rfl .nil))

theorem isComposed_declaration (tree : Tree) : IsComposed tree (declaration (view tree)) := by
  obtain ⟨kind, label, span, children⟩ := tree
  cases kind with
  | keyword word => exact .alone fun _ => .own .ownText (.lit rfl .nil)
  | rawIdentifier => exact .alone fun _ => .own .ownText (.lit rfl .nil)
  | typeName => exact ⟨_, fun _ => .spaced, by simp, by simp⟩
  | declaration =>
    refine ⟨_, fun _ => .own .margin (.final .specified
      (.own (.withChild fun _ _ => ?_) (.lit rfl .nil))), by simp, by simp⟩
    split
    · exact .nothing
    · exact .literal rfl
  | aggregate tag =>
    refine ⟨_, fun _ => .aggregate, pairwise_apart_typeUses _, List.forall_mem_append.2
      ⟨forall_fits_usesFrom nofun ?_, forall_fits_usesFrom nofun ?_⟩⟩
    · intro index child _ hindex hchild state
      have hname := (lt_memberStart_iff hchild _).1 (by simpa using hindex)
      simp [hname]
    · intro index child hindex _ hchild state
      have hmember := (lt_memberStart_iff hchild _).not.1 (Nat.not_lt.2 hindex)
      simp [hmember]
  | enum =>
    exact ⟨_, fun _ => .enumeration, pairwise_apart_typeUses _,
      List.forall_mem_append.2 ⟨by simp, by simp⟩⟩
  | enumerator =>
    exact ⟨_, fun _ => .cons (.childAt 0) (.final
      (.ifChild fun _ hchild => .lit rfl (.final (.child hchild) .nil)) .nil), by simp, by simp⟩
  | declaratorList => exact ⟨_, fun _ => .commaSeparated, by simp, by simp⟩
  | initDeclarator =>
    refine ⟨_, fun _ => .cons (.childAt 0) (.final
      (.ifChild fun _ _ => .lit rfl (.final (.allFrom 1) .nil)) .nil), ?_, by simp⟩
    simp
    omega
  | declarator => exact ⟨_, fun _ => .within fun _ => .spaced, by simp, by simp⟩
  | initializerList =>
    exact ⟨_, fun _ => .lit rfl (.final .commaSeparated (.lit rfl .nil)), by simp, by simp⟩
  | pointerQualifier => exact ⟨_, fun _ => .lit rfl (.final .all .nil), by simp, by simp⟩
  | arrayModifier =>
    exact ⟨_, fun _ => .lit rfl (.final (.childIfAny 0) (.lit rfl .nil)), by simp, by simp⟩
  | parameterModifier =>
    exact ⟨_, fun _ => .lit rfl (.final (.childAt 0) (.lit rfl .nil)), by simp, by simp⟩
  | parameterList => exact ⟨_, fun _ => .within fun _ => .commaSeparated, by simp, by simp⟩
  | parameter => exact ⟨_, fun _ => .specified, by simp, by simp⟩
  | functionDefinition =>
    refine ⟨_, fun _ => .seq (.each fun _ _ hchild _ => ?_), by simp, by simp⟩
    split
    · exact .lit rfl (.final (.child hchild) .nil)
    · exact .child hchild
  | _ => exact .alone fun _ => .fail _

end Declarations

section Statements

def bodyScopes (tree : Tree) (index : Nat) : List Scope :=
  if tree.children[index]?.map Tree.kind = some .compound then [] else [.indented 1]

theorem bodyScopes_of_child {index : Nat} {child : Tree}
    (hchild : tree.children[index]? = some child) :
    bodyScopes tree index = if child.kind = .compound then [] else [.indented 1] := by
  simp [bodyScopes, hchild]

/-- A controlled statement is indented unless it is compound. -/
@[simp 1100]
theorem Use.fits_body {index : Nat} :
    Use.Fits tree ⟨[index], bodyScopes tree index⟩ ↔ (tree.kind = .connection → index ≠ 0) ∧
      ∀ child, tree.children[index]? = some child → ∀ state : State,
        { state with level := state.level + if child.kind = .compound then 0 else 1 } =
          (Edge.mk tree index child).change state := by
  rw [Use.fits_child]
  refine and_congr_right fun _ => forall₂_congr fun child hchild => forall_congr' fun state => ?_
  have hinside : changeInside (bodyScopes tree index) state =
      { state with level := state.level + if child.kind = .compound then 0 else 1 } := by
    rw [bodyScopes_of_child hchild]
    split <;> simp
  rw [hinside]

theorem Composed.topExpression {index : Nat} {child : Tree}
    (hchild : tree.children[index]? = some child) :
    Composed tree scopes [⟨[index], scopes ++ [.parentheses false]⟩] stack stack
      (topExpression ((view child).toPart index)) :=
  .within fun _ => .child hchild

/-- The line of a construct closes the parenthesis around its expression. -/
theorem Composed.header {keyword : String}
    (hkeyword : ∀ stack, scan stack keyword.toList = some stack) (index : Nat) :
    Composed tree [] [⟨[index], [.parentheses false]⟩] stack stack
      ((view tree).withChild index (header keyword)) :=
  .withChild fun _ hchild => .own .margin (.lit (hkeyword _) (.lit rfl
    (.final (.topExpression hchild) (.lit rfl .nil))))

theorem Composed.body (index : Nat) :
    Composed tree [] [⟨[index], bodyScopes tree index⟩] stack stack
      ((view tree).withChild index body) := by
  refine .withChild fun child hchild => ?_
  rw [Render.body, kind_toPart, bodyScopes_of_child hchild]
  split
  · exact .child hchild
  · exact .within fun _ => .child hchild

theorem isComposed_statement (tree : Tree) : IsComposed tree (statement (view tree)) := by
  obtain ⟨kind, label, span, children⟩ := tree
  cases kind with
  | statement =>
    exact ⟨_, fun _ => .own .margin (.final (.ifChild fun _ => .topExpression) (.lit rfl .nil)),
      by simp, by simp⟩
  | compound =>
    exact ⟨_, fun _ => .own .margin (.final (.block fun _ => .all) .nil), by simp, by simp⟩
  | labeled =>
    refine ⟨_, fun _ => .own (.within fun _ => ?_) (.final (.childAt 1) .nil), by simp, by simp⟩
    exact .own .labelMargin (.own (.textOfChild 0) (.lit rfl .nil))
  | caseLabel =>
    exact ⟨_, fun _ => .cons (.within fun _ => .own .labelMargin (.lit rfl (.final (.childAt 0)
      (.lit rfl .nil)))) (.final (.childAt 1) .nil), by simp, by simp⟩
  | defaultLabel =>
    refine ⟨_, fun _ => .own (.within fun _ => ?_) (.final (.childAt 0) .nil), by simp, by simp⟩
    exact .own .labelMargin (.lit rfl .nil)
  | atomic =>
    exact ⟨_, fun _ => .own .margin (.lit rfl (.final (.body 0) .nil)), by simp, by simp⟩
  | ifElse =>
    exact ⟨_, fun _ => .cons (.header (fun _ => rfl) 0) (.cons (.body 1) (.final
      (.onlyIf fun _ => .own .margin (.lit rfl (.final (.body 2) .nil))) .nil)), by simp,
      by simp⟩
  | switch =>
    exact ⟨_, fun _ => .cons (.header (fun _ => rfl) 0) (.final (.body 1) .nil), by simp, by simp⟩
  | whileLoop =>
    exact ⟨_, fun _ => .cons (.header (fun _ => rfl) 0) (.final (.body 1) .nil), by simp, by simp⟩
  | doLoop =>
    exact ⟨_, fun _ => .own .margin (.lit rfl (.cons (.body 0) (.own .margin (.lit rfl
      (.final (.withChild fun _ => .topExpression) (.lit rfl .nil)))))), by simp, by simp⟩
  | forLoop =>
    refine ⟨_, fun _ => .own .margin (.lit rfl (.cons (.joined (fun _ => rfl) (.docsUpTo 3))
      (.lit rfl (.final (.body 3) .nil)))), ?_,
      List.forall_mem_append.2 ⟨forall_fits_usesFrom nofun ?_, by simp⟩⟩
    · simp
      omega
    · intro index child _ hindex _ state
      have hclause : index ≠ 3 := by omega
      simp [hclause]
  | forClause clause => exact ⟨_, fun _ => .ifChild fun _ => .topExpression, by simp, by simp⟩
  | gotoJump =>
    exact ⟨_, fun _ => .own .margin (.lit rfl (.final (.childAt _) (.lit rfl .nil))), by simp,
      by simp⟩
  | continueJump => exact .alone fun _ => .own .margin (.lit rfl .nil)
  | breakJump => exact .alone fun _ => .own .margin (.lit rfl .nil)
  | returnJump =>
    exact ⟨_, fun _ => .own .margin (.lit rfl (.final (.childIfAny 0) (.lit rfl .nil))), by simp,
      by simp⟩
  | _ => exact .alone fun _ => .fail _

end Statements

section Expressions

theorem Composed.operand (index : Nat) :
    Composed tree scopes [⟨[index], scopes ++ [.parentheses true]⟩] stack stack
      ((view tree).withChild index operand) :=
  .withChild fun _ hchild => .within fun _ => .child hchild

theorem isComposed_expression (tree : Tree) : IsComposed tree (expression (view tree)) := by
  obtain ⟨kind, label, span, children⟩ := tree
  cases kind with
  | identifier => exact .alone fun _ => .ownText
  | constant => exact .alone fun _ => .ownText
  | stringLiteral => exact .alone fun _ => .ownText
  | binary operator =>
    exact ⟨_, fun _ => .within fun _ => .cons (.childAt 0) (.lit rfl (.own .ownText (.lit rfl
      (.final (.childAt 1) .nil)))), by simp, by simp⟩
  | conditional =>
    exact ⟨_, fun _ => .within fun _ => .cons (.childAt 0) (.lit rfl (.cons (.childAt 1) (.lit rfl
      (.final (.childAt 2) .nil)))), by simp, by simp⟩
  | unary operator =>
    have hsymbol : ∀ stack, scan stack operator.symbol.toList = some stack := by
      cases operator <;> exact fun _ => rfl
    exact ⟨_, fun _ => .lit (hsymbol _) (.final (.operand 0) .nil), by simp, by simp⟩
  | dereference =>
    exact ⟨_, fun _ => .lit rfl (.final (.operand 0) (.lit rfl .nil)), by simp, by simp⟩
  | postfixChain => exact ⟨_, fun _ => .within fun _ => .all, by simp, by simp⟩
  | argumentList =>
    exact ⟨_, fun _ => .lit rfl (.final .commaSeparated (.lit rfl .nil)), by simp, by simp⟩
  | elementSelection =>
    exact ⟨_, fun _ => .lit rfl (.final (.childAt 0) (.lit rfl .nil)), by simp, by simp⟩
  | dot => exact ⟨_, fun _ => .own .ownText (.final (.childAt 0) .nil), by simp, by simp⟩
  | arrow => exact ⟨_, fun _ => .own .ownText (.final (.childAt 0) .nil), by simp, by simp⟩
  | plusPlus => exact .alone fun _ => .ownText
  | minusMinus => exact .alone fun _ => .ownText
  | sizeofType =>
    exact ⟨_, fun _ => .lit rfl (.final (.within fun _ => .all) (.lit rfl .nil)), by simp,
      by simp⟩
  | sizeofExpression =>
    exact ⟨_, fun _ => .lit rfl (.final (.within fun _ => .all) (.lit rfl .nil)), by simp,
      by simp⟩
  | cast =>
    refine ⟨_, fun _ => .lit rfl (.cons (.allFrom 1) (.lit rfl
      (.final (.within fun _ => .childAt 0) (.lit rfl .nil)))), ?_,
      List.forall_mem_append.2 ⟨forall_fits_usesFrom nofun ?_, by simp⟩⟩
    · simp
      omega
    · intro index child hindex _ _ state
      have htype : index ≠ 0 := by omega
      simp [htype]
  | vaArg =>
    exact ⟨_, fun _ => .lit rfl (.final (.within fun _ => .cons (.childAt 0) (.lit rfl
      (.final (.childAt 1) .nil))) (.lit rfl .nil)), by simp, by simp⟩
  | _ => exact .alone fun _ => .fail _

end Expressions

section Assembly

/-- Children at the top level, each rendered unless a header is skipped. -/
theorem Composed.unskipped :
    Composed tree scopes (usesFrom scopes 0 tree.children.length) stack stack
      (unskipped (view tree).parts) := by
  refine .seq (.each fun _ _ hchild _ => ?_)
  split
  · exact .child hchild
  · exact .unlessSkipping (.child hchild)

/-- An interface has a block of children only where it is defined. -/
theorem isComposed_interface (hkind : tree.kind = .interface) :
    IsComposed tree (interface (view tree)) := by
  rw [interface]
  cases hfirst : tree.children[0]? with
  | none =>
    rw [withChild_of_none hfirst]
    exact .alone fun _ => .fail _
  | some first =>
    rw [withChild_of_some hfirst, kind_toPart]
    split
    · rename_i htype
      exact ⟨_, fun _ => .own .margin (.lit rfl (.cons (.child hfirst) (.final
        (.ifChild fun _ hchild => .lit rfl (.final (.child hchild) .nil)) (.lit rfl .nil)))),
        by simp, by simp [hkind, List.head?_eq_getElem?, hfirst, htype]⟩
    · rename_i htype
      refine ⟨_, fun _ => .own .margin (.lit rfl (.own (.partText (List.mem_of_getElem? hfirst) 0)
        (.lit rfl (.final (.block fun _ => .allFrom 1) .nil)))), by simp,
        forall_fits_usesFrom (by simp [hkind]) ?_⟩
      intro index child hindex _ _ state
      have hrest : index ≠ 0 := by omega
      simp [hkind, List.head?_eq_getElem?, hfirst, htype, hrest]

/-- The parameters of a component are its fifth child, or its fourth if that is a list of
parameters. -/
theorem exists_uses_componentParameters (tree : Tree) :
    ∃ uses, (∀ stack, Composed tree [] uses stack stack (componentParameters (view tree))) ∧
      (uses = [] ∨ uses = [⟨[4], []⟩] ∨
        uses = [⟨[3], []⟩] ∧ tree.children[3]?.map Tree.kind = some .componentParameterList) := by
  obtain ⟨kind, label, span, children⟩ := tree
  match children with
  | [] | [_] | [_, _] | [_, _, _] | _ :: _ :: _ :: _ :: _ :: _ :: _ =>
    exact ⟨[], fun _ => .nothing, .inl rfl⟩
  | [_, _, _, fourth] =>
    by_cases hkind : fourth.kind = .componentParameterList
    · refine ⟨_, fun _ => ?_, .inr (.inr ⟨rfl, by simp [hkind]⟩)⟩
      simp only [componentParameters, view, viewParts, kind_toPart, hkind, if_true]
      exact .child rfl
    · refine ⟨[], fun _ => ?_, .inl rfl⟩
      simp only [componentParameters, view, viewParts, kind_toPart, hkind, if_false]
      exact .nothing
  | [_, _, _, _, fifth] => exact ⟨_, fun _ => .child rfl, .inr (.inl rfl)⟩

theorem exists_uses_implementation (tree : Tree) :
    ∃ uses, (∀ stack, Composed tree [] uses stack stack
        ((view tree).ifChild 3 fun part =>
          if part.kind = .implementation then part.doc else .nothing)) ∧
      (uses = [] ∨
        uses = [⟨[3], []⟩] ∧ tree.children[3]?.map Tree.kind = some .implementation) := by
  by_cases hkind : tree.children[3]?.map Tree.kind = some .implementation
  · exact ⟨_, fun _ => .ifChild fun _ hchild => .onlyIf fun _ => .child hchild,
      .inr ⟨rfl, hkind⟩⟩
  · refine ⟨[], fun _ => .ifChild fun child hchild => ?_, .inl rfl⟩
    rw [kind_toPart, if_neg (by simpa [hchild] using hkind)]
    exact .nothing

theorem isComposed_component (hkind : tree.kind = .componentDefinition) :
    IsComposed tree (component (view tree)) := by
  obtain ⟨parameters, hparameters, hplaces⟩ := exists_uses_componentParameters tree
  obtain ⟨implementation, himplementation, hplace⟩ := exists_uses_implementation tree
  obtain rfl | rfl | ⟨rfl, hlist⟩ := hplaces <;>
    obtain rfl | ⟨rfl, hfourth⟩ := hplace <;>
    exact ⟨_, fun _ => .cons (.childAt 0) (.cons (.childAt 1) (.cons (hparameters _)
      (.cons (.childAt 2) (.final (himplementation _) .nil)))), by simp_all, by simp_all⟩

/-- The endpoints below the operator of a wiring. -/
theorem ComposedEach.endpoints {operator : Tree} (hoperator : tree.children[0]? = some operator) :
    ComposedEach tree scopes
      ((List.range' 0 operator.children.length).map fun index => ⟨[0, index], scopes⟩)
      ((view operator).toPart 0).inner := by
  have hinner : ((view operator).toPart 0).inner =
      (viewParts 0 operator.children).map fun part => .descend 0 part.doc := by
    simp [Node.toPart, Node.docs, view_eq]
  rw [hinner]
  refine forall₂_viewParts fun index child hchild _ => ?_
  rw [Nat.zero_add]
  exact .endpoint hoperator hchild

theorem isComposed_connection (hkind : tree.kind = .connection) :
    IsComposed tree (connection (view tree)) := by
  rw [connection]
  cases hoperator : tree.children[0]? with
  | none =>
    rw [withChild_of_none hoperator]
    exact .alone fun _ => .fail _
  | some operator =>
    rw [withChild_of_some hoperator]
    refine ⟨_, fun _ => .own .margin (.cons (.childAt 1) (.lit rfl
      (.own (.partText (List.mem_of_getElem? hoperator) 0) (.lit rfl
        (.final (.seq (.endpoints hoperator)) (.lit rfl .nil)))))), ?_, ?_⟩
    · refine List.pairwise_cons.2 ⟨by simp [Use.Apart], List.pairwise_map.2 ?_⟩
      refine (List.nodup_range' ..).imp fun hindices => ?_
      simpa [Use.Apart, eq_comm] using hindices
    · simp [hkind, Use.Fits]

theorem isComposed_assembly (tree : Tree) : IsComposed tree (assembly (view tree)) := by
  obtain ⟨kind, label, span, children⟩ := tree
  cases kind with
  | file => exact ⟨_, fun _ => .unskipped, by simp, by simp⟩
  | lineDirective =>
    refine .alone fun _ => .withChild fun child hchild => ?_
    rw [text_toPart]
    exact .directive rfl (List.mem_of_getElem? hchild)
  | interface => exact isComposed_interface rfl
  | componentDefinition => exact isComposed_component rfl
  | componentKind =>
    exact ⟨_, fun _ => .seq (.each fun index _ hchild _ => .fewer
      (.own (.partText (List.mem_of_getElem? hchild) index) (.lit rfl .nil))
      (List.nil_sublist _)), by simp, by simp⟩
  | componentParameterList =>
    exact ⟨_, fun _ => .lit rfl (.final (.within fun _ => .commaSeparated) (.lit rfl .nil)),
      by simp, by simp⟩
  | specification =>
    exact ⟨_, fun _ => .lit rfl (.final (.block fun _ => .all) .nil), by simp, by simp⟩
  | uses =>
    exact ⟨_, fun _ => .own .margin (.lit rfl (.final (.block fun _ => .all) .nil)), by simp,
      by simp⟩
  | provides =>
    exact ⟨_, fun _ => .own .margin (.lit rfl (.final (.block fun _ => .all) .nil)), by simp,
      by simp⟩
  | interfaceType =>
    exact ⟨_, fun _ => .own (.textOfChild 0) (.final (.ifChild fun _ _ => .lit rfl
      (.final (.joined (fun _ => rfl) (.docsFrom 1)) (.lit rfl .nil))) .nil), by simp, by simp⟩
  | implementation =>
    exact ⟨_, fun _ => .own .margin (.lit rfl (.final (.block fun _ => .unskipped) .nil)),
      by simp, by simp⟩
  | components =>
    exact ⟨_, fun _ => .own .margin (.lit rfl (.final .commaSeparated (.lit rfl .nil))), by simp,
      by simp⟩
  | componentDeclaration =>
    exact ⟨_, fun _ => .cons (.childAt 0) (.final (.onlyIf fun _ => .lit rfl
      (.final (.childAt 1) .nil)) .nil), by simp, by simp⟩
  | componentInstantiation =>
    exact ⟨_, fun _ => .lit rfl (.cons (.childAt 0) (.lit rfl (.final (.childIfAny 1)
      (.lit rfl .nil)))), by simp, by simp⟩
  | componentArguments => exact ⟨_, fun _ => .commaSeparated, by simp, by simp⟩
  | connection => exact isComposed_connection rfl
  | identifierPath => exact ⟨_, fun _ => .joined (fun _ => rfl) .docs, by simp, by simp⟩
  | null => exact ⟨_, fun _ => .all, by simp, by simp⟩
  | _ => exact .alone fun _ => .fail _

end Assembly

theorem isComposed_fallback (tree : Tree) : IsComposed tree (fallback (view tree)) := by
  refine .alone fun stack => .own (.report _) (.own ?_ (.lit rfl .nil))
  rw [text_view]
  cases htext : tree.text with
  | none => exact .nothing
  | some text =>
    have hown := @Composed.ownText tree [] stack
    rwa [htext] at hown

/-- The rule of every node puts its program together as said. -/
theorem isComposed_rule (tree : Tree) : IsComposed tree (view tree).doc := by
  rw [Node.doc]
  cases (view tree).kind.family? with
  | none => exact isComposed_fallback tree
  | some family =>
    cases family with
    | declaration => exact isComposed_declaration tree
    | statement => exact isComposed_statement tree
    | expression => exact isComposed_expression tree
    | assembly => exact isComposed_assembly tree

end NescTree.Render
