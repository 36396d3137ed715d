import NescTree.Proofs.Render.Rules
import NescTree.Proofs.Render.Weaving
import NescTree.Render.Visit

/-!
# What rules ask for

A rule asks for a number of children and for some texts.  Whether a program of a rule runs
through exactly if the tree and the nodes that it visits have what is asked for, is stated
once for each way of putting programs together.
-/

namespace NescTree.Render

section Requirements

def fewestChildren : Kind → Nat
  | .declaration | .enumerator | .initDeclarator | .parameterModifier | .defaultLabel | .atomic
  | .gotoJump | .unary _ | .dereference | .elementSelection | .dot | .arrow | .cast
  | .lineDirective | .interface | .interfaceType | .componentDeclaration
  | .componentInstantiation => 1
  | .labeled | .caseLabel | .ifElse | .switch | .whileLoop | .doLoop | .binary _ | .vaArg
  | .connection => 2
  | .conditional | .componentDefinition => 3
  | .forLoop => 4
  | _ => 0

/-- The nodes that need a text for the rule of a tree.  The name of an interface is written
by its definition, but not where the interface is used or provided. -/
def textNodes (tree : Tree) : List Tree :=
  match tree.kind with
  | .identifier | .constant | .stringLiteral | .rawIdentifier => [tree]
  | .labeled | .lineDirective | .interfaceType | .connection => tree.children.take 1
  | .interface => (tree.children.take 1).filter fun first => first.kind ≠ .interfaceType
  | .componentKind => tree.children
  | _ => []

/-- Whether a node has what its rule asks for. -/
structure MeetsRule (tree : Tree) : Prop where
  children : fewestChildren tree.kind ≤ tree.children.length
  texts : ∀ node ∈ textNodes tree, node.text.isSome = true

/-- Whether a node lacks what a fault is about.  Nothing else stops its rule. -/
def Lacks (tree : Tree) (fault : Fault) : Prop :=
  match fault with
  | .missingChild => tree.children.length < fewestChildren tree.kind
  | .missingText => tree.kind ≠ .lineDirective ∧ ∃ node ∈ textNodes tree, node.text = none
  | .unnamedDirective => tree.kind = .lineDirective ∧ ∃ node ∈ textNodes tree, node.text = none
  | _ => False

theorem meetsRule_iff {tree : Tree} :
    MeetsRule tree ↔ fewestChildren tree.kind ≤ tree.children.length ∧
      ∀ node ∈ textNodes tree, node.text.isSome = true :=
  ⟨fun hmeets => ⟨hmeets.children, hmeets.texts⟩, fun hmeets => ⟨hmeets.1, hmeets.2⟩⟩

instance (tree : Tree) : Decidable (MeetsRule tree) := decidable_of_iff' _ meetsRule_iff

theorem take_one_children {tree child : Tree} (hchild : tree.children[0]? = some child) :
    tree.children.take 1 = [child] := by
  rw [List.take_one, List.head?_eq_getElem?, hchild]
  rfl

theorem mem_textNodes_of_first {tree child : Tree} (htexts : textNodes tree = tree.children.take 1)
    (hchild : tree.children[0]? = some child) : child ∈ textNodes tree := by
  rw [htexts, take_one_children hchild]
  exact List.mem_singleton_self child

/-- A node that meets its rule lacks nothing. -/
theorem MeetsRule.not_lacks {tree : Tree} (hmeets : MeetsRule tree) (fault : Fault) :
    ¬ Lacks tree fault := by
  have htexts : ¬∃ node ∈ textNodes tree, node.text = none := by
    rintro ⟨node, hmem, htext⟩
    have hsome := hmeets.texts node hmem
    rw [htext] at hsome
    cases hsome
  intro hlacks
  cases fault with
  | missingChild => exact absurd hmeets.children (Nat.not_le.2 hlacks)
  | missingText => exact htexts hlacks.2
  | unnamedDirective => exact htexts hlacks.2
  | _ => exact hlacks

theorem Lacks.cause {tree : Tree} {fault : Fault} (hlacks : Lacks tree fault) :
    fault = .missingChild ∨ fault = .missingText ∨ fault = .unnamedDirective := by
  cases fault with
  | missingChild => exact .inl rfl
  | missingText => exact .inr (.inl rfl)
  | unnamedDirective => exact .inr (.inr rfl)
  | _ => exact hlacks.elim

end Requirements

theorem length_parts (tree : Tree) : (view tree).parts.length = tree.children.length := by
  have hall : ∀ start trees, (viewParts start trees).length = trees.length := by
    intro start trees
    induction trees generalizing start with
    | nil => rfl
    | cons tree trees ih => rw [viewParts, List.length_cons, ih, List.length_cons]
  rw [view_eq]
  exact hall 0 tree.children

/-- The programs of the children are those that go down to them. -/
theorem exists_child_of_mem_docs {tree : Tree} {doc : Doc} (hdoc : doc ∈ (view tree).docs) :
    ∃ index child, tree.children[index]? = some child ∧ doc = childDoc index child := by
  obtain ⟨part, hpart, rfl⟩ := List.mem_map.1 hdoc
  obtain ⟨index, hindex⟩ := List.mem_iff_getElem?.1 hpart
  rw [view_eq, getElem?_viewParts, Nat.zero_add] at hindex
  obtain ⟨child, hchild, rfl⟩ := Option.map_eq_some_iff.1 hindex
  exact ⟨index, child, hchild, rfl⟩

section Runs

variable {first second body : Doc} {state : State} {fault : Fault}

theorem fault?_append_of_none (hfirst : (first.run state).fault? = none) :
    ((Doc.append first second).run state).fault? =
      (second.run (first.run state).state).fault? := by
  simp [Doc.run, Written.andThen, hfirst]

theorem fault?_append_of_some (hfirst : (first.run state).fault? = some fault) :
    ((Doc.append first second).run state).fault? = some fault := by
  simp [Doc.run, Written.andThen, hfirst]

/-- Leaving a scope that could be entered gives no fault of its own. -/
theorem fault?_within {scope : Scope} {entered : Entered}
    (henter : scope.enter state = .ok entered) :
    ((Doc.within scope body).run state).fault? = (body.run entered.state).fault? := by
  obtain ⟨restored, hundo, -⟩ := Scope.exists_undo henter (body.agrees_run entered.state)
  have hinside : ((Written.ofText entered.state entered.opening).andThen body.run).state =
      (body.run entered.state).state := rfl
  simp only [Doc.run, henter, Written.leave, hinside, hundo]
  cases hfault : (body.run entered.state).fault? with
  | none => simp [Written.andThen, Written.ofText, hfault]
  | some fault => simp [Written.andThen, Written.ofText, hfault]

theorem declarators_run (doc : Doc) (hdeclarators : state.declarators ≠ []) :
    (doc.run state).state.declarators ≠ [] := by
  rw [(doc.agrees_run state).declarators]
  exact hdeclarators

end Runs

/-- Whether a visit below a path is one of a node of a tree with some property. -/
def Visit.IsOf (visit : Visit) (tree : Tree) (path : List Nat) (property : Tree → Prop) : Prop :=
  ∃ below node, visit.path = path ++ below ∧ descendant? tree below = some node ∧ property node

/-- A program below a tree runs through only if the nodes that it visits meet their rules,
and stops only if one of them lacks something. -/
structure VisitsDecide (tree : Tree) (doc : Doc) : Prop where
  ok : ∀ path state, state.declarators ≠ [] → (doc.run state).fault? = none →
    ∀ visit ∈ doc.visits path state, visit.IsOf tree path MeetsRule
  failed : ∀ path state fault, state.declarators ≠ [] → (doc.run state).fault? = some fault →
    ∃ visit ∈ doc.visits path state, visit.IsOf tree path (Lacks · fault)

/-- A program in the rule of a tree, where the tree itself has been visited before: it runs
through only if also what it needs is there, and stops also if the tree lacks something. -/
structure Checks (tree : Tree) (needs : Prop) (doc : Doc) : Prop where
  ok : ∀ path state, state.declarators ≠ [] → (doc.run state).fault? = none →
    needs ∧ ∀ visit ∈ doc.visits path state, visit.IsOf tree path MeetsRule
  failed : ∀ path state fault, state.declarators ≠ [] → (doc.run state).fault? = some fault →
    Lacks tree fault ∨ ∃ visit ∈ doc.visits path state, visit.IsOf tree path (Lacks · fault)

section Descent

variable {tree child : Tree} {index : Nat} {body : Doc}

/-- What holds below a child holds below its parent, one step further down. -/
theorem Visit.IsOf.of_child (hchild : tree.children[index]? = some child) {visit : Visit}
    {path : List Nat} {property : Tree → Prop}
    (hvisit : visit.IsOf child (path ++ [index]) property) : visit.IsOf tree path property := by
  obtain ⟨below, node, hpath, hnode, hproperty⟩ := hvisit
  refine ⟨index :: below, node, ?_, ?_, hproperty⟩
  · rw [hpath, List.append_assoc]
    rfl
  · rw [descendant?, hchild]
    exact hnode

theorem VisitsDecide.descend (hchild : tree.children[index]? = some child)
    (hbody : VisitsDecide child body) : VisitsDecide tree (.descend index body) := by
  constructor
  · intro path state hdeclarators hfault visit hmem
    exact (hbody.ok _ state hdeclarators hfault visit hmem).of_child hchild
  · intro path state fault hdeclarators hfault
    obtain ⟨visit, hmem, hvisit⟩ := hbody.failed (path ++ [index]) state fault hdeclarators hfault
    exact ⟨visit, hmem, hvisit.of_child hchild⟩

theorem VisitsDecide.checks (hbody : VisitsDecide tree body) : Checks tree True body := by
  constructor
  · intro path state hdeclarators hfault
    exact ⟨trivial, hbody.ok path state hdeclarators hfault⟩
  · intro path state fault hdeclarators hfault
    exact .inr (hbody.failed path state fault hdeclarators hfault)

/-- If the rule of a tree needs all that is asked for, the visits decide. -/
theorem Checks.visitsDecide (hrule : Checks tree (MeetsRule tree) (view tree).doc) :
    VisitsDecide tree (treeDoc tree) := by
  constructor
  · intro path state hdeclarators hfault visit hmem
    obtain ⟨hmeets, hvisits⟩ := hrule.ok path state hdeclarators hfault
    rcases List.mem_cons.1 hmem with rfl | hmem
    · exact ⟨[], tree, (List.append_nil path).symm, rfl, hmeets⟩
    · exact hvisits visit hmem
  · intro path state fault hdeclarators hfault
    rcases hrule.failed path state fault hdeclarators hfault with hlacks | ⟨visit, hmem, hvisit⟩
    · exact ⟨_, List.mem_cons_self, [], tree, (List.append_nil path).symm, rfl, hlacks⟩
    · exact ⟨visit, List.mem_cons_of_mem _ hmem, hvisit⟩

end Descent

namespace Checks

variable {tree : Tree} {needs more : Prop}

theorem mono {doc : Doc} (hdoc : Checks tree needs doc) (hmore : needs → more) :
    Checks tree more doc := by
  constructor
  · intro path state hdeclarators hfault
    obtain ⟨hneeds, hvisits⟩ := hdoc.ok path state hdeclarators hfault
    exact ⟨hmore hneeds, hvisits⟩
  · exact hdoc.failed

section Pieces

/-- A program that always runs through and visits nothing. -/
theorem plain {doc : Doc} (hfault : ∀ state, (doc.run state).fault? = none)
    (hvisits : ∀ path state, doc.visits path state = []) : Checks tree True doc := by
  constructor
  · intro path state _ _
    rw [hvisits path state]
    exact ⟨trivial, by simp⟩
  · intro path state fault _ hfailed
    rw [hfault state] at hfailed
    cases hfailed

theorem nothing : Checks tree True .nothing := plain (fun _ => rfl) fun _ _ => rfl

theorem margin : Checks tree True .margin := plain (fun _ => rfl) fun _ _ => rfl

theorem report (record : Record) : Checks tree True (.report record) :=
  plain (fun _ => rfl) fun _ _ => rfl

theorem literal (text : String) : Checks tree True (.write (some text)) :=
  plain (fun _ => rfl) fun _ _ => rfl

/-- A text that is there in any case, such as that of an operator. -/
theorem spelled {text : Option String} (htext : text.isSome = true) :
    Checks tree True (.write text) := by
  obtain ⟨text, rfl⟩ := Option.isSome_iff_exists.1 htext
  exact literal text

/-- A program that stops for the lack of something and visits nothing. -/
theorem stopping {doc : Doc} {fault : Fault} (hlacks : Lacks tree fault)
    (hfault : ∀ state, (doc.run state).fault? = some fault) : Checks tree False doc := by
  constructor
  · intro path state _ hnone
    rw [hfault state] at hnone
    cases hnone
  · intro path state other _ hfailed
    rw [hfault state] at hfailed
    cases hfailed
    exact .inl hlacks

/-- A text that a rule asks for. -/
theorem text {node : Tree} (hnode : node ∈ textNodes tree) (hkind : tree.kind ≠ .lineDirective) :
    Checks tree (node.text.isSome = true) (.write node.text) := by
  cases htext : node.text with
  | none =>
    have hlacks : Lacks tree .missingText := ⟨hkind, node, hnode, htext⟩
    exact (stopping hlacks fun _ => rfl).mono False.elim
  | some text => exact (literal text).mono fun _ => rfl

theorem directive {node : Tree} (hnode : node ∈ textNodes tree)
    (hkind : tree.kind = .lineDirective) :
    Checks tree (node.text.isSome = true) (.directive node.text) := by
  cases htext : node.text with
  | none =>
    have hlacks : Lacks tree .unnamedDirective := ⟨hkind, node, hnode, htext⟩
    exact (stopping hlacks fun _ => rfl).mono False.elim
  | some name =>
    exact (plain (fun _ => rfl) fun _ _ => rfl).mono fun _ => rfl

end Pieces

section Sequences

theorem append {first second : Doc} (hfirst : Checks tree needs first)
    (hsecond : Checks tree more second) : Checks tree (needs ∧ more) (.append first second) := by
  constructor
  · intro path state hdeclarators hfault
    cases hrun : (first.run state).fault? with
    | some fault =>
      rw [fault?_append_of_some hrun] at hfault
      cases hfault
    | none =>
      rw [fault?_append_of_none hrun] at hfault
      obtain ⟨hneeds, hvisits⟩ := hfirst.ok path state hdeclarators hrun
      obtain ⟨hmore, hothers⟩ :=
        hsecond.ok path _ (declarators_run first hdeclarators) hfault
      refine ⟨⟨hneeds, hmore⟩, ?_⟩
      rw [Doc.visits, hrun]
      exact List.forall_mem_append.2 ⟨hvisits, hothers⟩
  · intro path state fault hdeclarators hfault
    cases hrun : (first.run state).fault? with
    | some earlier =>
      rw [fault?_append_of_some hrun] at hfault
      cases hfault
      rcases hfirst.failed path state fault hdeclarators hrun with hlacks | ⟨visit, hmem, hvisit⟩
      · exact .inl hlacks
      · exact .inr ⟨visit, List.mem_append_left _ hmem, hvisit⟩
    | none =>
      rw [fault?_append_of_none hrun] at hfault
      rcases hsecond.failed path _ fault (declarators_run first hdeclarators) hfault with
        hlacks | ⟨visit, hmem, hvisit⟩
      · exact .inl hlacks
      · refine .inr ⟨visit, ?_, hvisit⟩
        rw [Doc.visits, hrun]
        exact List.mem_append_right _ hmem

theorem nil : Checks tree True (.seq []) := nothing

theorem cons {doc : Doc} {docs : List Doc} (hdoc : Checks tree needs doc)
    (hdocs : Checks tree more (.seq docs)) : Checks tree (needs ∧ more) (.seq (doc :: docs)) :=
  append hdoc hdocs

/-- A program that needs nothing, and what follows it. -/
theorem own {doc : Doc} {docs : List Doc} (hdoc : Checks tree True doc)
    (hdocs : Checks tree needs (.seq docs)) : Checks tree needs (.seq (doc :: docs)) :=
  (append hdoc hdocs).mono And.right

/-- The last program that needs something, and what follows it. -/
theorem final {doc : Doc} {docs : List Doc} (hdoc : Checks tree needs doc)
    (hdocs : Checks tree True (.seq docs)) : Checks tree needs (.seq (doc :: docs)) :=
  (append hdoc hdocs).mono And.left

theorem lit {text : String} {docs : List Doc} (hdocs : Checks tree needs (.seq docs)) :
    Checks tree needs (.seq (.write (some text) :: docs)) :=
  own (literal text) hdocs

theorem seq {docs : List Doc} (hdocs : ∀ doc ∈ docs, Checks tree True doc) :
    Checks tree True (.seq docs) := by
  induction docs with
  | nil => exact nil
  | cons doc docs ih =>
    obtain ⟨hdoc, hrest⟩ := List.forall_mem_cons.1 hdocs
    exact own hdoc (ih hrest)

theorem joined {separator : String} {docs : List Doc} (hdocs : ∀ doc ∈ docs, Checks tree True doc) :
    Checks tree True (.joined separator docs) := by
  induction docs with
  | nil => exact nothing
  | cons doc docs ih =>
    obtain ⟨hdoc, hrest⟩ := List.forall_mem_cons.1 hdocs
    cases docs with
    | nil => exact hdoc
    | cons next docs =>
      have hmore := append (literal separator) (ih hrest)
      exact (append hdoc hmore).mono fun _ => trivial

end Sequences

section Scopes

/-- The scope can be entered, since rendering never closes the outermost declarator scope. -/
theorem within {scope : Scope} {body : Doc} (hbody : Checks tree needs body) :
    Checks tree needs (.within scope body) := by
  constructor
  · intro path state hdeclarators hfault
    obtain ⟨entered, henter, -, hcounts⟩ := Weaves.exists_enter scope hdeclarators
    rw [fault?_within henter] at hfault
    rw [Doc.visits, henter]
    exact hbody.ok path entered.state hcounts hfault
  · intro path state fault hdeclarators hfault
    obtain ⟨entered, henter, -, hcounts⟩ := Weaves.exists_enter scope hdeclarators
    rw [fault?_within henter] at hfault
    rw [Doc.visits, henter]
    exact hbody.failed path entered.state fault hcounts hfault

/-- A program that may be left out asks for nothing of the node itself. -/
theorem unlessSkipping {body : Doc} (hbody : Checks tree True body) :
    Checks tree True (.unlessSkipping body) := by
  constructor
  · intro path state hdeclarators hfault
    rw [Doc.visits]
    rw [Doc.run] at hfault
    by_cases hskipping : state.isSkipping = true
    · rw [if_pos hskipping]
      exact ⟨trivial, by simp⟩
    · rw [if_neg hskipping] at hfault ⊢
      exact hbody.ok path state hdeclarators hfault
  · intro path state fault hdeclarators hfault
    rw [Doc.visits]
    rw [Doc.run] at hfault
    by_cases hskipping : state.isSkipping = true
    · rw [if_pos hskipping] at hfault
      cases hfault
    · rw [if_neg hskipping] at hfault ⊢
      exact hbody.failed path state fault hdeclarators hfault

theorem block {contents : Doc} (hcontents : Checks tree needs contents) :
    Checks tree needs (block contents) :=
  lit (final (within hcontents) (own margin (lit nil)))

end Scopes

section Children

variable {index : Nat} {use : Part → Doc}

/-- The use of a child that has to be there. -/
theorem withChild (wants : Tree → Prop) (hindex : index < fewestChildren tree.kind)
    (huse : ∀ child, tree.children[index]? = some child →
      Checks tree (wants child) (use ((view child).toPart index))) :
    Checks tree (∃ child, tree.children[index]? = some child ∧ wants child)
      ((view tree).withChild index use) := by
  cases hchild : tree.children[index]? with
  | none =>
    have hlacks : Lacks tree .missingChild :=
      Nat.lt_of_le_of_lt (List.getElem?_eq_none_iff.1 hchild) hindex
    rw [withChild_of_none hchild]
    exact (stopping hlacks fun _ => rfl).mono False.elim
  | some child =>
    rw [withChild_of_some hchild]
    exact (huse child hchild).mono fun hwants => ⟨child, rfl, hwants⟩

/-- The use of a child that has to be there, if nothing else is asked for. -/
theorem needing (hindex : index < fewestChildren tree.kind)
    (huse : ∀ child, tree.children[index]? = some child →
      Checks tree True (use ((view child).toPart index))) :
    Checks tree (index < tree.children.length) ((view tree).withChild index use) := by
  refine (withChild (fun _ => True) hindex huse).mono ?_
  rintro ⟨child, hchild, -⟩
  exact (List.getElem?_eq_some_iff.1 hchild).1

theorem ifChild (huse : ∀ child, tree.children[index]? = some child →
      Checks tree True (use ((view child).toPart index))) :
    Checks tree True ((view tree).ifChild index use) := by
  rw [Node.ifChild, view_eq, getElem?_viewParts, Nat.zero_add]
  cases hchild : tree.children[index]? with
  | none => exact nothing
  | some child => exact huse child hchild

/-- The use of a child that is there. -/
theorem present (hindex : index < tree.children.length)
    (huse : ∀ child, tree.children[index]? = some child →
      Checks tree True (use ((view child).toPart index))) :
    Checks tree True ((view tree).withChild index use) := by
  have hchild := List.getElem?_eq_getElem hindex
  rw [withChild_of_some hchild]
  exact huse _ hchild

/-- All children, where each may have to have something. -/
theorem each {render : Part → Doc} (wants : Tree → Prop)
    (hrender : ∀ index child, tree.children[index]? = some child →
      Checks tree (wants child) (render ((view child).toPart index))) :
    Checks tree (∀ child ∈ tree.children, wants child)
      (.seq ((view tree).parts.map render)) := by
  have hall : ∀ start trees, (∀ index child, trees[index]? = some child →
        Checks tree (wants child) (render ((view child).toPart (start + index)))) →
      Checks tree (∀ child ∈ trees, wants child) (.seq ((viewParts start trees).map render)) := by
    intro start trees
    induction trees generalizing start with
    | nil => exact fun _ => nil.mono fun _ => by simp
    | cons first trees ih =>
      intro hrender
      have hrest := ih (start + 1) fun index child hchild => by
        simpa [Nat.add_right_comm, Nat.add_assoc] using hrender (index + 1) child hchild
      exact (cons (hrender 0 first rfl) hrest).mono List.forall_mem_cons.2
  rw [view_eq]
  exact hall 0 tree.children (by simpa using hrender)

theorem everyPart {render : Part → Doc}
    (hrender : ∀ index child, tree.children[index]? = some child →
      Checks tree True (render ((view child).toPart index))) :
    Checks tree True (.seq ((view tree).parts.map render)) :=
  (each (fun _ => True) hrender).mono fun _ => trivial

end Children

section Rendered

variable (hchildren : ∀ child ∈ tree.children, VisitsDecide child (treeDoc child))
include hchildren

theorem child {index : Nat} {child : Tree} (hchild : tree.children[index]? = some child) :
    Checks tree True ((view child).toPart index).doc :=
  ((hchildren child (List.mem_of_getElem? hchild)).descend hchild).checks

theorem childAt {index : Nat} (hindex : index < fewestChildren tree.kind) :
    Checks tree (index < tree.children.length) ((view tree).child index) :=
  needing hindex fun _ hchild => child hchildren hchild

theorem childIfAny (index : Nat) : Checks tree True ((view tree).ifChild index Part.doc) :=
  ifChild fun _ hchild => child hchildren hchild

theorem of_mem_docs {doc : Doc} (hdoc : doc ∈ (view tree).docs) : Checks tree True doc := by
  obtain ⟨index, below, hbelow, rfl⟩ := exists_child_of_mem_docs hdoc
  exact child hchildren hbelow

theorem all : Checks tree True (view tree).all := seq fun _ => of_mem_docs hchildren

theorem allFrom (start : Nat) : Checks tree True ((view tree).allFrom start) :=
  seq fun _ hdoc => of_mem_docs hchildren (List.mem_of_mem_drop hdoc)

theorem commaSeparated : Checks tree True (view tree).commaSeparated :=
  joined fun _ => of_mem_docs hchildren

end Rendered

section Results

variable {doc : Doc}

/-- A rule that asks for no text, and that needs as many children as its kind says. -/
theorem counting (hdoc : Checks tree needs doc) (htexts : textNodes tree = [])
    (hneeds : needs → fewestChildren tree.kind ≤ tree.children.length) :
    Checks tree (MeetsRule tree) doc :=
  hdoc.mono fun hmet => ⟨hneeds hmet, by simp [htexts]⟩

/-- A rule that asks for nothing. -/
theorem undemanding (hdoc : Checks tree True doc) (htexts : textNodes tree = [])
    (hfewest : fewestChildren tree.kind = 0) : Checks tree (MeetsRule tree) doc :=
  hdoc.counting htexts fun _ => hfewest ▸ Nat.zero_le _

/-- The rule of a node that is nothing but its text. -/
theorem leaf (hdoc : Checks tree (tree.text.isSome = true) doc) (htexts : textNodes tree = [tree])
    (hfewest : fewestChildren tree.kind = 0) : Checks tree (MeetsRule tree) doc :=
  hdoc.mono fun hmet => ⟨hfewest ▸ Nat.zero_le _, by simpa [htexts] using hmet⟩

end Results

section Texts

theorem ownText (htexts : textNodes tree = [tree]) (hkind : tree.kind ≠ .lineDirective) :
    Checks tree (tree.text.isSome = true) (.write (view tree).text) := by
  rw [text_view]
  exact text (by simp [htexts]) hkind

/-- A node whose kind has a spelling always has a text. -/
theorem spelling (hspelling : tree.kind.spelling?.isSome = true) :
    Checks tree True (.write (view tree).text) := by
  rw [text_view]
  obtain ⟨kind, label, span, children⟩ := tree
  apply spelled
  cases label with
  | none => exact hspelling
  | some text => rfl

/-- The text of a first child, where the rule asks for it. -/
theorem firstText (htexts : textNodes tree = tree.children.take 1)
    (hindex : 0 < fewestChildren tree.kind) (hkind : tree.kind ≠ .lineDirective) :
    Checks tree (∃ child, tree.children[0]? = some child ∧ child.text.isSome = true)
      ((view tree).childText 0) := by
  refine withChild _ hindex fun child hchild => ?_
  rw [text_toPart]
  exact text (mem_textNodes_of_first htexts hchild) hkind

/-- A rule that asks for the text of the first child, and for some children. -/
theorem named {doc : Doc} (htexts : textNodes tree = tree.children.take 1)
    (hdoc : Checks tree (∃ child, tree.children[0]? = some child ∧ child.text.isSome = true ∧
      fewestChildren tree.kind ≤ tree.children.length) doc) :
    Checks tree (MeetsRule tree) doc := by
  refine hdoc.mono ?_
  rintro ⟨child, hchild, htext, hfewest⟩
  refine ⟨hfewest, ?_⟩
  rw [htexts, take_one_children hchild]
  exact List.forall_mem_singleton.2 htext

end Texts

end Checks

end NescTree.Render
