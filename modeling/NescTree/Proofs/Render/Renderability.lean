import NescTree.Proofs.Render.Requirements

/-!
# Which trees can be rendered

Rendering runs through exactly if every node that it visits has what its rule asks for;
nodes that it does not come to ask for nothing.  If it stops, a node that it has visited
lacks what the fault says.
-/

namespace NescTree.Render

section Declarations

variable {tree : Tree} (hchildren : ∀ child ∈ tree.children, VisitsDecide child (treeDoc child))
include hchildren

theorem Checks.spaced :
    Checks tree True (.seq ((view tree).docs.map fun doc => .seq [doc, " "])) := by
  refine .seq fun doc hdoc => ?_
  obtain ⟨inner, hinner, rfl⟩ := List.mem_map.1 hdoc
  exact .own (.of_mem_docs hchildren hinner) (.lit .nil)

theorem Checks.specified : Checks tree True (specified (view tree)) := by
  refine .everyPart fun index child hchild => ?_
  split
  · exact .own (.child hchildren hchild) (.lit .nil)
  · exact .child hchildren hchild

theorem Checks.tagName (member : Kind) : Checks tree True (tagName (view tree) member) := by
  refine .ifChild fun child hchild => ?_
  split
  · exact .nothing
  · exact .own (.child hchildren hchild) (.lit .nil)

theorem Checks.of_mem_members {member : Kind} {doc : Doc}
    (hdoc : doc ∈ members (view tree) member) : Checks tree True doc := by
  rw [members_view] at hdoc
  exact .of_mem_docs hchildren (List.mem_of_mem_drop hdoc)

theorem Checks.aggregate (hspelling : tree.kind.spelling?.isSome = true) :
    Checks tree True (aggregate (view tree)) := by
  refine .own (.spelling hspelling) (.lit (.own (.tagName hchildren .declaration) (.own ?_ .nil)))
  split
  · exact .nothing
  · exact .lit (.own (.within (.seq fun _ => .of_mem_members hchildren)) (.own .margin (.lit .nil)))

theorem Checks.enumeration : Checks tree True (enumeration (view tree)) := by
  refine .lit (.own (.tagName hchildren .enumerator) (.own ?_ .nil))
  split
  · exact .nothing
  · exact .lit (.own (.joined fun _ => .of_mem_members hchildren) (.lit .nil))

theorem checks_declaration (hfamily : tree.kind.family? = some .declaration) :
    Checks tree (MeetsRule tree) (declaration (view tree)) := by
  obtain ⟨kind, label, span, children⟩ := tree
  cases kind with
  | keyword word => exact .undemanding (.own (.spelling rfl) (.lit .nil)) rfl rfl
  | rawIdentifier => exact .leaf (.final (.ownText rfl nofun) (.lit .nil)) rfl rfl
  | typeName => exact .undemanding (.spaced hchildren) rfl rfl
  | declaration =>
    refine .counting (.own .margin (.own (.specified hchildren)
      (.final (.needing Nat.one_pos fun _ _ => ?_) (.lit .nil)))) rfl id
    split
    · exact .nothing
    · exact .literal _
  | aggregate tag => exact .undemanding (.aggregate hchildren rfl) rfl rfl
  | enum => exact .undemanding (.enumeration hchildren) rfl rfl
  | enumerator =>
    exact .counting (.final (.childAt hchildren Nat.one_pos) (.own (.ifChild fun _ hchild =>
      .lit (.own (.child hchildren hchild) .nil)) .nil)) rfl id
  | declaratorList => exact .undemanding (.commaSeparated hchildren) rfl rfl
  | initDeclarator =>
    exact .counting (.final (.childAt hchildren Nat.one_pos) (.own (.ifChild fun _ _ =>
      .lit (.own (.allFrom hchildren 1) .nil)) .nil)) rfl id
  | declarator => exact .undemanding (.within (.spaced hchildren)) rfl rfl
  | initializerList =>
    exact .undemanding (.lit (.own (.commaSeparated hchildren) (.lit .nil))) rfl rfl
  | pointerQualifier => exact .undemanding (.lit (.own (.all hchildren) .nil)) rfl rfl
  | arrayModifier =>
    exact .undemanding (.lit (.own (.childIfAny hchildren 0) (.lit .nil))) rfl rfl
  | parameterModifier =>
    exact .counting (.lit (.final (.childAt hchildren Nat.one_pos) (.lit .nil))) rfl id
  | parameterList => exact .undemanding (.within (.commaSeparated hchildren)) rfl rfl
  | parameter => exact .undemanding (.specified hchildren) rfl rfl
  | functionDefinition =>
    refine .undemanding (.everyPart fun index child hchild => ?_) rfl rfl
    split
    · exact .lit (.own (.child hchildren hchild) .nil)
    · exact .child hchildren hchild
  | _ => cases hfamily

end Declarations

section Statements

variable {tree : Tree} (hchildren : ∀ child ∈ tree.children, VisitsDecide child (treeDoc child))
include hchildren

theorem Checks.topExpression {index : Nat} {child : Tree}
    (hchild : tree.children[index]? = some child) :
    Checks tree True (topExpression ((view child).toPart index)) :=
  .within (.child hchildren hchild)

theorem Checks.header {index : Nat} (hindex : index < fewestChildren tree.kind) (keyword : String) :
    Checks tree (index < tree.children.length)
      ((view tree).withChild index (header keyword)) :=
  .needing hindex fun _ hchild =>
    .own .margin (.lit (.lit (.own (.topExpression hchildren hchild) (.lit .nil))))

theorem Checks.controlled {index : Nat} {child : Tree}
    (hchild : tree.children[index]? = some child) :
    Checks tree True (body ((view child).toPart index)) := by
  rw [body]
  split
  · exact .child hchildren hchild
  · exact .within (.child hchildren hchild)

theorem Checks.body {index : Nat} (hindex : index < fewestChildren tree.kind) :
    Checks tree (index < tree.children.length) ((view tree).withChild index body) :=
  .needing hindex fun _ => .controlled hchildren

/-- The last child is the first if there is none, and then the first is missing. -/
theorem Checks.lastChild (hindex : 0 < fewestChildren tree.kind) :
    Checks tree (0 < tree.children.length) (view tree).lastChild := by
  rw [Node.lastChild, length_parts]
  by_cases hnone : tree.children.length = 0
  · rw [hnone]
    exact .mono (.childAt hchildren hindex) fun hpos => absurd hnone (Nat.ne_of_gt hpos)
  · have hpos := Nat.pos_of_ne_zero hnone
    exact .mono (.present (Nat.sub_one_lt hnone) fun _ => .child hchildren) fun _ => hpos

theorem checks_statement (hfamily : tree.kind.family? = some .statement) :
    Checks tree (MeetsRule tree) (statement (view tree)) := by
  obtain ⟨kind, label, span, children⟩ := tree
  cases kind with
  | statement =>
    exact .undemanding (.own .margin (.own (.ifChild fun _ => .topExpression hchildren)
      (.lit .nil))) rfl rfl
  | compound => exact .undemanding (.own .margin (.own (.block (.all hchildren)) .nil)) rfl rfl
  | labeled =>
    refine .named rfl (Checks.mono (.cons (.within (.own .margin
      (.final (.firstText rfl Nat.two_pos nofun) (.lit .nil))))
        (.final (.childAt hchildren Nat.one_lt_two) .nil)) ?_)
    rintro ⟨⟨child, hchild, htext⟩, hfewest⟩
    exact ⟨child, hchild, htext, hfewest⟩
  | caseLabel =>
    exact .counting (.cons (.within (.own .margin (.lit (.final (.childAt hchildren Nat.two_pos)
      (.lit .nil))))) (.final (.childAt hchildren Nat.one_lt_two) .nil)) rfl And.right
  | defaultLabel =>
    exact .counting (.own (.within (.own .margin (.lit .nil)))
      (.final (.childAt hchildren Nat.one_pos) .nil)) rfl id
  | atomic =>
    exact .counting (.own .margin (.lit (.final (.body hchildren Nat.one_pos) .nil))) rfl id
  | ifElse =>
    refine .counting (.cons (.header hchildren Nat.two_pos "if")
      (.final (.body hchildren Nat.one_lt_two) (.own ?_ .nil))) rfl And.right
    split
    · rename_i hthree
      rw [length_parts] at hthree
      have hindex : 2 < children.length := Nat.lt_of_lt_of_eq (Nat.lt_succ_self 2) hthree.symm
      exact .own .margin (.lit (.own (.present hindex fun _ => .controlled hchildren) .nil))
    · exact .nothing
  | switch =>
    exact .counting (.cons (.header hchildren Nat.two_pos "switch")
      (.final (.body hchildren Nat.one_lt_two) .nil)) rfl And.right
  | whileLoop =>
    exact .counting (.cons (.header hchildren Nat.two_pos "while")
      (.final (.body hchildren Nat.one_lt_two) .nil)) rfl And.right
  | doLoop =>
    exact .counting (.own .margin (.lit (.cons (.body hchildren Nat.two_pos) (.own .margin (.lit
      (.final (.needing Nat.one_lt_two fun _ => .topExpression hchildren) (.lit .nil))))))) rfl
      And.right
  | forLoop =>
    exact .counting (.own .margin (.lit (.own (.joined fun _ hdoc =>
      .of_mem_docs hchildren (List.mem_of_mem_take hdoc)) (.lit
        (.final (.body hchildren (Nat.lt_succ_self 3)) .nil))))) rfl id
  | forClause clause =>
    exact .undemanding (.ifChild fun _ => .topExpression hchildren) rfl rfl
  | gotoJump =>
    exact .counting (.own .margin (.lit (.final (.lastChild hchildren Nat.one_pos) (.lit .nil))))
      rfl id
  | continueJump => exact .undemanding (.own .margin (.lit .nil)) rfl rfl
  | breakJump => exact .undemanding (.own .margin (.lit .nil)) rfl rfl
  | returnJump =>
    exact .undemanding (.own .margin (.lit (.own (.childIfAny hchildren 0) (.lit .nil)))) rfl rfl
  | _ => cases hfamily

end Statements

section Expressions

variable {tree : Tree} (hchildren : ∀ child ∈ tree.children, VisitsDecide child (treeDoc child))
include hchildren

theorem Checks.operand (hindex : 0 < fewestChildren tree.kind) :
    Checks tree (0 < tree.children.length) ((view tree).withChild 0 operand) :=
  .needing hindex fun _ hchild => .within (.child hchildren hchild)

theorem checks_expression (hfamily : tree.kind.family? = some .expression) :
    Checks tree (MeetsRule tree) (expression (view tree)) := by
  obtain ⟨kind, label, span, children⟩ := tree
  cases kind with
  | identifier => exact .leaf (.ownText rfl nofun) rfl rfl
  | constant => exact .leaf (.ownText rfl nofun) rfl rfl
  | stringLiteral => exact .leaf (.ownText rfl nofun) rfl rfl
  | binary operator =>
    exact .counting (.within (.cons (.childAt hchildren Nat.two_pos) (.lit (.own (.spelling rfl)
      (.lit (.final (.childAt hchildren Nat.one_lt_two) .nil)))))) rfl And.right
  | conditional =>
    exact .counting (.within (.cons (.childAt hchildren (Nat.succ_pos 2)) (.lit
      (.cons (.childAt hchildren (Nat.succ_lt_succ Nat.two_pos)) (.lit
        (.final (.childAt hchildren (Nat.lt_succ_self 2)) .nil)))))) rfl fun hneeds => hneeds.2.2
  | unary operator => exact .counting (.lit (.final (.operand hchildren Nat.one_pos) .nil)) rfl id
  | dereference =>
    exact .counting (.lit (.final (.operand hchildren Nat.one_pos) (.lit .nil))) rfl id
  | postfixChain => exact .undemanding (.within (.all hchildren)) rfl rfl
  | argumentList =>
    exact .undemanding (.lit (.own (.commaSeparated hchildren) (.lit .nil))) rfl rfl
  | elementSelection =>
    exact .counting (.lit (.final (.childAt hchildren Nat.one_pos) (.lit .nil))) rfl id
  | dot =>
    exact .counting (.own (.spelling rfl) (.final (.childAt hchildren Nat.one_pos) .nil)) rfl id
  | arrow =>
    exact .counting (.own (.spelling rfl) (.final (.childAt hchildren Nat.one_pos) .nil)) rfl id
  | plusPlus => exact .undemanding (.spelling rfl) rfl rfl
  | minusMinus => exact .undemanding (.spelling rfl) rfl rfl
  | sizeofType =>
    exact .undemanding (.lit (.own (.within (.all hchildren)) (.lit .nil))) rfl rfl
  | sizeofExpression =>
    exact .undemanding (.lit (.own (.within (.all hchildren)) (.lit .nil))) rfl rfl
  | cast =>
    exact .counting (.lit (.own (.allFrom hchildren 1) (.lit
      (.final (.within (.childAt hchildren Nat.one_pos)) (.lit .nil))))) rfl id
  | vaArg =>
    exact .counting (.lit (.final (.within (.cons (.childAt hchildren Nat.two_pos) (.lit
      (.final (.childAt hchildren Nat.one_lt_two) .nil)))) (.lit .nil))) rfl And.right
  | _ => cases hfamily

end Expressions

section Assembly

variable {tree : Tree} (hchildren : ∀ child ∈ tree.children, VisitsDecide child (treeDoc child))
include hchildren

theorem Checks.unskipped : Checks tree True (unskipped (view tree).parts) := by
  refine .everyPart fun index child hchild => ?_
  split
  · exact .child hchildren hchild
  · exact .unlessSkipping (.child hchildren hchild)

theorem checks_interface (hkind : tree.kind = .interface) :
    Checks tree (MeetsRule tree) (interface (view tree)) := by
  have hindex : 0 < fewestChildren tree.kind := by simp [hkind, fewestChildren]
  refine Checks.mono (.withChild
    (fun first => first.kind = .interfaceType ∨ first.text.isSome = true) hindex
      fun first hfirst => ?_) ?_
  · rw [kind_toPart]
    split
    · rename_i htype
      exact .mono (.own .margin (.lit (.own (.child hchildren hfirst)
        (.own (.ifChild fun _ hchild => .lit (.own (.child hchildren hchild) .nil))
          (.lit .nil))))) fun _ => .inl htype
    · rename_i htype
      have hnode : first ∈ textNodes tree := by
        simp [textNodes, hkind, take_one_children hfirst, htype]
      rw [text_toPart]
      exact .mono (.own .margin (.lit (.final (.text hnode (by simp [hkind])) (.lit
        (.own (.block (.allFrom hchildren 1)) .nil))))) .inr
  · rintro ⟨first, hfirst, hwanted⟩
    have hlength := (List.getElem?_eq_some_iff.1 hfirst).1
    have hfewest : fewestChildren tree.kind = 1 := by simp [hkind, fewestChildren]
    refine ⟨hfewest ▸ hlength, ?_⟩
    simp only [textNodes, hkind, take_one_children hfirst]
    by_cases htype : first.kind = .interfaceType
    · simp [htype]
    · simpa [htype] using hwanted

theorem Checks.componentParameters : Checks tree True (componentParameters (view tree)) := by
  obtain ⟨kind, label, span, children⟩ := tree
  match children with
  | [] | [_] | [_, _] | [_, _, _] | _ :: _ :: _ :: _ :: _ :: _ :: _ => exact .nothing
  | [_, _, _, fourth] =>
    simp only [Render.componentParameters, view, viewParts]
    split
    · exact .child hchildren rfl
    · exact .nothing
  | [_, _, _, _, fifth] => exact .child hchildren rfl

theorem checks_component (hkind : tree.kind = .componentDefinition) :
    Checks tree (MeetsRule tree) (component (view tree)) := by
  have hfewest : fewestChildren tree.kind = 3 := by simp [hkind, fewestChildren]
  refine .counting (.cons (.childAt hchildren ?_) (.cons (.childAt hchildren ?_)
    (.own (.componentParameters hchildren) (.final (.childAt hchildren ?_)
      (.own (.ifChild fun _ hchild => ?_) .nil))))) (by simp [textNodes, hkind]) ?_
  · omega
  · omega
  · omega
  · split
    · exact .child hchildren hchild
    · exact .nothing
  · rintro ⟨-, -, hthird⟩
    omega

omit hchildren in
/-- The children of the operator of a wiring are visited in place of the operator. -/
theorem Checks.endpoint {operator : Tree} (hoperator : tree.children[0]? = some operator)
    (hendpoints : ∀ child ∈ operator.children, VisitsDecide child (treeDoc child)) {doc : Doc}
    (hdoc : doc ∈ ((view operator).toPart 0).inner) : Checks tree True doc := by
  obtain ⟨inner, hinner, rfl⟩ := List.mem_map.1 hdoc
  obtain ⟨index, child, hchild, rfl⟩ := exists_child_of_mem_docs hinner
  have hdecide := hendpoints child (List.mem_of_getElem? hchild)
  exact ((hdecide.descend hchild).descend hoperator).checks

theorem checks_connection (hkind : tree.kind = .connection)
    (hbelow : ∀ child ∈ tree.children, ∀ below ∈ child.children,
      VisitsDecide below (treeDoc below)) :
    Checks tree (MeetsRule tree) (connection (view tree)) := by
  have hfewest : fewestChildren tree.kind = 2 := by simp [hkind, fewestChildren]
  have htexts : textNodes tree = tree.children.take 1 := by simp [textNodes, hkind]
  refine .named htexts (Checks.mono (.withChild
    (fun operator => 1 < tree.children.length ∧ operator.text.isSome = true) (by omega)
      fun operator hoperator => ?_) ?_)
  · have hnode := mem_textNodes_of_first htexts hoperator
    have hendpoints := hbelow operator (List.mem_of_getElem? hoperator)
    rw [text_toPart]
    exact .own .margin (.cons (.childAt hchildren (by omega)) (.lit (.final
      (.text hnode (by simp [hkind])) (.lit (.own
        (.seq fun _ => .endpoint hoperator hendpoints) (.lit .nil))))))
  · rintro ⟨operator, hoperator, hlength, htext⟩
    exact ⟨operator, hoperator, htext, by omega⟩

theorem checks_assembly (hfamily : tree.kind.family? = some .assembly)
    (hbelow : ∀ child ∈ tree.children, ∀ below ∈ child.children,
      VisitsDecide below (treeDoc below)) :
    Checks tree (MeetsRule tree) (assembly (view tree)) := by
  obtain ⟨kind, label, span, children⟩ := tree
  cases kind with
  | file => exact .undemanding (.unskipped hchildren) rfl rfl
  | lineDirective =>
    refine .named rfl (Checks.mono (.withChild (fun child => child.text.isSome = true)
      Nat.one_pos fun child hchild => ?_) ?_)
    · rw [text_toPart]
      exact .directive (mem_textNodes_of_first rfl hchild) rfl
    · rintro ⟨child, hchild, htext⟩
      exact ⟨child, hchild, htext, (List.getElem?_eq_some_iff.1 hchild).1⟩
  | interface => exact checks_interface hchildren rfl
  | componentDefinition => exact checks_component hchildren rfl
  | componentKind =>
    refine Checks.mono (.each (fun child => child.text.isSome = true) fun index child hchild => ?_)
      fun htexts => ⟨Nat.zero_le _, htexts⟩
    rw [text_toPart]
    exact .final (.text (List.mem_of_getElem? hchild) nofun) (.lit .nil)
  | componentParameterList =>
    exact .undemanding (.lit (.own (.within (.commaSeparated hchildren)) (.lit .nil))) rfl rfl
  | specification =>
    exact .undemanding (.lit (.own (.block (.all hchildren)) .nil)) rfl rfl
  | uses => exact .undemanding (.own .margin (.lit (.own (.block (.all hchildren)) .nil))) rfl rfl
  | provides =>
    exact .undemanding (.own .margin (.lit (.own (.block (.all hchildren)) .nil))) rfl rfl
  | interfaceType =>
    refine .named rfl (Checks.mono (.final (.firstText rfl Nat.one_pos nofun) (.own
      (.ifChild fun _ _ => .lit (.own (.joined fun _ hdoc =>
        .of_mem_docs hchildren (List.mem_of_mem_drop hdoc)) (.lit .nil))) .nil)) ?_)
    rintro ⟨child, hchild, htext⟩
    exact ⟨child, hchild, htext, (List.getElem?_eq_some_iff.1 hchild).1⟩
  | implementation =>
    exact .undemanding (.own .margin (.lit (.own (.block (.unskipped hchildren)) .nil))) rfl rfl
  | components =>
    exact .undemanding (.own .margin (.lit (.own (.commaSeparated hchildren) (.lit .nil)))) rfl rfl
  | componentDeclaration =>
    refine .counting (.final (.childAt hchildren Nat.one_pos) (.own ?_ .nil)) rfl id
    split
    · rename_i htwo
      rw [length_parts] at htwo
      have hindex : 1 < children.length := Nat.lt_of_lt_of_eq Nat.one_lt_two htwo.symm
      exact .lit (.own (.present hindex fun _ => .child hchildren) .nil)
    · exact .nothing
  | componentInstantiation =>
    exact .counting (.lit (.final (.childAt hchildren Nat.one_pos) (.lit
      (.own (.childIfAny hchildren 1) (.lit .nil))))) rfl id
  | componentArguments => exact .undemanding (.commaSeparated hchildren) rfl rfl
  | connection => exact checks_connection hchildren rfl hbelow
  | identifierPath => exact .undemanding (.joined fun _ => .of_mem_docs hchildren) rfl rfl
  | null => exact .undemanding (.all hchildren) rfl rfl
  | _ => cases hfamily

end Assembly

section Rendering

theorem checks_fallback {tree : Tree} (hfamily : tree.kind.family? = none) :
    Checks tree (MeetsRule tree) (fallback (view tree)) := by
  have hdoc : Checks tree True (fallback (view tree)) := by
    refine .own (.report _) (.own ?_ (.lit .nil))
    split
    · exact .literal _
    · exact .nothing
  obtain ⟨kind, label, span, children⟩ := tree
  cases kind with
  | configurationWord | moduleWord | genericWord | leftArrow => exact .undemanding hdoc rfl rfl
  | _ => cases hfamily

/-- The rule of every node checks what is asked for: each kind is given to the rules of its
own family, so no rule stops because it does not know the kind. -/
theorem checks_rule {tree : Tree}
    (hchildren : ∀ child ∈ tree.children, VisitsDecide child (treeDoc child))
    (hbelow : ∀ child ∈ tree.children, ∀ below ∈ child.children,
      VisitsDecide below (treeDoc below)) :
    Checks tree (MeetsRule tree) (view tree).doc := by
  have hkind : (view tree).kind = tree.kind := by rw [view_eq]
  rw [Node.doc, hkind]
  cases hfamily : tree.kind.family? with
  | none => exact checks_fallback hfamily
  | some family =>
    cases family with
    | declaration => exact checks_declaration hchildren hfamily
    | statement => exact checks_statement hchildren hfamily
    | expression => exact checks_expression hchildren hfamily
    | assembly => exact checks_assembly hchildren hfamily hbelow

theorem visitsDecide_treeDoc (tree : Tree) : VisitsDecide tree (treeDoc tree) := by
  induction tree using Tree.inductionBelow with
  | step tree hchildren hbelow => exact (checks_rule hchildren hbelow).visitsDecide

theorem Written.result_eq_error_iff {written : Written} {fault : Fault} :
    written.result = .error fault ↔ written.fault? = some fault := by
  rw [result]
  cases written.fault? with
  | none => simp
  | some other => simp

/-- Rendering gives a text exactly if every visited node meets its rule.  Otherwise the fault
is about a child or a text that some visited node lacks.  The state may be any in which a
declarator scope is open, as in the initial one, which a reset gives back. -/
theorem renders_iff_visited_meet_rules (tree : Tree) {state : State}
    (hdeclarators : state.declarators ≠ []) :
    ((∃ text, (renderPart tree state).result = .ok text) ↔
      ∀ visit ∈ treeVisits tree state,
        ∃ node, descendant? tree visit.path = some node ∧ MeetsRule node) ∧
    ∀ fault, (renderPart tree state).result = .error fault →
      (fault = .missingChild ∧ fault.message = "tuple index out of range" ∨
        fault = .missingText ∨ fault = .unnamedDirective) ∧
      ∃ visit ∈ treeVisits tree state,
        ∃ node, descendant? tree visit.path = some node ∧ Lacks node fault := by
  have hdecide := visitsDecide_treeDoc tree
  have hfailed : ∀ fault, (renderPart tree state).result = .error fault →
      ∃ visit ∈ treeVisits tree state,
        ∃ node, descendant? tree visit.path = some node ∧ Lacks node fault := by
    intro fault hfault
    rw [Written.result_eq_error_iff] at hfault
    obtain ⟨visit, hmem, below, node, rfl, hnode, hlacks⟩ :=
      hdecide.failed [] state fault hdeclarators hfault
    exact ⟨visit, hmem, node, hnode, hlacks⟩
  refine ⟨⟨?_, ?_⟩, ?_⟩
  · rintro ⟨text, hresult⟩ visit hmem
    have hfault : (renderPart tree state).fault? = none := by
      cases hrun : (renderPart tree state).fault? with
      | none => rfl
      | some fault =>
        rw [Written.result_eq_error_iff.2 hrun] at hresult
        cases hresult
    obtain ⟨below, node, rfl, hnode, hmeets⟩ :=
      hdecide.ok [] state hdeclarators hfault visit hmem
    exact ⟨node, hnode, hmeets⟩
  · intro hvisits
    cases hresult : (renderPart tree state).result with
    | ok text => exact ⟨text, rfl⟩
    | error fault =>
      obtain ⟨visit, hmem, node, hnode, hlacks⟩ := hfailed fault hresult
      obtain ⟨same, hsame, hmeets⟩ := hvisits visit hmem
      obtain rfl : node = same := Option.some.inj (hnode.symm.trans hsame)
      exact absurd hlacks (hmeets.not_lacks fault)
  · intro fault hresult
    obtain ⟨visit, hmem, node, hnode, hlacks⟩ := hfailed fault hresult
    refine ⟨?_, visit, hmem, node, hnode, hlacks⟩
    rcases hlacks.cause with rfl | hother
    · exact .inl ⟨rfl, rfl⟩
    · exact .inr hother

/-- A declaration without children is no obstacle inside a header, whose contents are not
visited, and stops the rendering of the main file. -/
theorem renders_iff_visited_meet_rules_header :
    let header : Tree := .node .lineDirective none none [.leaf .stringLiteral "\"b.h\"" none]
    let empty : Tree := .node .declaration none none []
    State.initial.declarators ≠ [] ∧ ¬ MeetsRule empty ∧
    (∃ text, (renderPart (.node .file none none [header, empty]) .initial).result = .ok text) ∧
    ¬∃ text, (renderPart (.node .file none none [empty, header]) .initial).result = .ok text := by
  intro header empty
  have hinitial : State.initial.declarators ≠ [] := List.cons_ne_nil 0 []
  have hempty : ¬ MeetsRule empty := by decide
  refine ⟨hinitial, hempty, ?_, ?_⟩
  · apply (renders_iff_visited_meet_rules _ hinitial).1.2
    have hvisits : treeVisits (.node .file none none [header, empty]) .initial =
        [⟨[], .initial⟩, ⟨[0], .initial⟩] := by decide +kernel
    rw [hvisits]
    intro visit hmem
    rcases List.mem_pair.1 hmem with rfl | rfl
    · exact ⟨_, rfl, by decide⟩
    · exact ⟨header, rfl, by decide⟩
  · intro htext
    have hvisits := (renders_iff_visited_meet_rules _ hinitial).1.1 htext
    have hmem : (⟨[0], .initial⟩ : Visit) ∈
        treeVisits (.node .file none none [empty, header]) .initial := by decide +kernel
    obtain ⟨node, hnode, hmeets⟩ := hvisits _ hmem
    obtain rfl : empty = node := Option.some.inj hnode
    exact hempty hmeets

end Rendering

end NescTree.Render
