import NescTree.Proofs.Render.Inclusion
import NescTree.Proofs.Render.Rules

/-!
# Rendered text is well bracketed

Each rule closes the brackets that it opens, whatever it renders in between, and a
scope writes either both of its parentheses or none.  So if no text of a tree holds a
bracket, the rendered text is well nested.  A failure leaves the start of a
well-nested text.
-/

namespace NescTree.Render

open Text

def IsBracketFree (text? : Option String) : Prop :=
  ∀ text ∈ text?, ∀ char ∈ text.toList, isBracket char = false

/-- Whether a text that follows some open brackets closes none but innermost ones, and
leaves others open at its end unless there was a fault. -/
def Written.Takes (before after : List Char) (written : Written) : Prop :=
  ∃ stack, scan before written.text.toList = some stack ∧
    (written.fault? = none → stack = after)

/-- Whether a program takes some open brackets to others in every state. -/
def Doc.Takes (before after : List Char) (doc : Doc) : Prop :=
  ∀ state, (doc.run state).Takes before after

/-- Whether a program closes exactly the brackets that it opens. -/
def Doc.IsBalanced (doc : Doc) : Prop :=
  ∀ stack, doc.Takes stack stack

namespace Written

variable {before middle after : List Char}

theorem takes_ofFault (state : State) (fault : Fault) :
    (ofFault state fault).Takes before after :=
  ⟨before, rfl, by simp [ofFault]⟩

theorem Takes.andThen {written : Written} {next : State → Written}
    (hwritten : written.Takes before middle)
    (hnext : ∀ state, (next state).Takes middle after) :
    (written.andThen next).Takes before after := by
  obtain ⟨stack, hscan, hstack⟩ := hwritten
  cases hfault : written.fault? with
  | some fault =>
    rw [Written.andThen, hfault]
    exact ⟨stack, hscan, by simp [hfault]⟩
  | none =>
    obtain rfl := hstack hfault
    obtain ⟨last, hlast, hend⟩ := hnext written.state
    rw [Written.andThen, hfault]
    exact ⟨last, by simp [scan_append, hscan, hlast], hend⟩

/-- Leaving a scope writes its closing text, unless there was a fault. -/
theorem Takes.leave {written : Written} {undo : Undo} (hwritten : written.Takes before middle)
    (hclosing : scan middle undo.closing.toList = some after) :
    (written.leave undo).Takes before after := by
  obtain ⟨stack, hscan, hstack⟩ := hwritten
  rw [Written.leave]
  cases undo.apply written.state with
  | error fault => exact ⟨stack, hscan, by simp⟩
  | ok restored =>
    cases hfault : written.fault? with
    | some fault => exact ⟨stack, hscan, by simp⟩
    | none =>
      obtain rfl := hstack hfault
      exact ⟨after, by simp [scan_append, hscan, hclosing], fun _ => rfl⟩

end Written

/-- The text at the start of a scope and the text at its end match. -/
theorem Scope.exists_scan_opening {scope : Scope} {state : State} {entered : Entered}
    (henter : scope.enter state = .ok entered) (stack : List Char) :
    ∃ inner, scan stack entered.opening.toList = some inner ∧
      scan inner entered.undo.closing.toList = some stack := by
  cases scope with
  | indented amount =>
    cases henter
    exact ⟨stack, rfl, rfl⟩
  | parentheses enabled =>
    cases henter
    exact ⟨stack, rfl, rfl⟩
  | operator =>
    cases henter
    cases state.bare with
    | true => exact ⟨stack, rfl, rfl⟩
    | false => exact ⟨')' :: stack, by simp [scan, closer?, isCloser, Undo.closing]⟩
  | parameters =>
    cases henter
    exact ⟨stack, rfl, rfl⟩
  | declarator =>
    obtain ⟨counted, -, hentered⟩ := bind_eq_ok_iff.1 henter
    cases hentered
    exact ⟨stack, rfl, rfl⟩
  | nestedDeclarator =>
    obtain ⟨nested, -, hrest⟩ := bind_eq_ok_iff.1 henter
    obtain ⟨counted, -, hentered⟩ := bind_eq_ok_iff.1 hrest
    cases hentered
    cases nested with
    | true => exact ⟨')' :: stack, by simp [scan, closer?, isCloser, Undo.closing]⟩
    | false => exact ⟨stack, rfl, rfl⟩

namespace Doc

namespace Takes

variable {stack : List Char}

theorem text {text? : Option String} (htext : IsBracketFree text?) :
    (write text?).Takes stack stack := by
  intro state
  cases text? with
  | none => exact Written.takes_ofFault state .missingText
  | some text => exact ⟨stack, scan_of_forall_plain (htext text rfl), fun _ => rfl⟩

theorem margin : Doc.margin.Takes stack stack := by
  intro state
  refine ⟨stack, scan_of_forall_plain ?_, fun _ => rfl⟩
  intro char hchar
  simp only [run_margin, Written.ofText, Text.spaces, String.toList_ofList] at hchar
  rw [List.eq_of_mem_replicate hchar]
  rfl

/-- An include directive has no brackets if the name of the file has none. -/
theorem directive {name? : Option String} (hname : IsBracketFree name?) :
    (Doc.directive name?).Takes stack stack := by
  intro state
  cases name? with
  | none => exact Written.takes_ofFault state .unnamedDirective
  | some name =>
    have hshown : ∀ char ∈ forwardSlashes name.toList, isBracket char = false := by
      intro char hchar
      obtain rfl | hmem := mem_forwardSlashes hchar
      · rfl
      · exact hname name rfl char hmem
    refine ⟨stack, ?_, fun _ => rfl⟩
    rw [text_run_directive]
    split
    · have hword : scan stack "#include ".toList = some stack := rfl
      have hend : scan stack "\n".toList = some stack := rfl
      simp only [String.toList_append, shownName, String.toList_ofList, scan_append, hword,
        scan_of_forall_plain hshown, hend, Option.bind_some]
    · rfl

/-- A scope writes both of its parentheses or none. -/
theorem within {scope : Scope} {body : Doc} (hbody : ∀ inner, body.Takes inner inner) :
    (Doc.within scope body).Takes stack stack := by
  intro state
  rw [run]
  cases henter : scope.enter state with
  | error fault => exact Written.takes_ofFault state fault
  | ok entered =>
    obtain ⟨inner, hopening, hclosing⟩ := scope.exists_scan_opening henter stack
    have hopened : (Written.ofText entered.state entered.opening).Takes stack inner :=
      ⟨inner, hopening, fun _ => rfl⟩
    exact (hopened.andThen (hbody inner)).leave hclosing

theorem unlessSkipping {body : Doc} (hbody : body.Takes stack stack) :
    (Doc.unlessSkipping body).Takes stack stack := by
  intro state
  rw [run]
  split
  · exact ⟨stack, rfl, fun _ => rfl⟩
  · exact hbody state

end Takes

end Doc

/-- A rule leaves the brackets open that its literal texts do, if no text of the node and
its children has brackets and the other nodes close their own. -/
theorem Composed.takes {tree : Tree} {scopes : List Scope} {uses : List Use}
    {before after : List Char} {doc : Doc} (hdoc : Composed tree scopes uses before after doc)
    (hown : IsBracketFree tree.text) (htexts : ∀ child ∈ tree.children, IsBracketFree child.text)
    (hchildren : ∀ child ∈ tree.children, (treeDoc child).IsBalanced)
    (hbelow : ∀ child ∈ tree.children, ∀ below ∈ child.children, (treeDoc below).IsBalanced) :
    doc.Takes before after := by
  induction hdoc with
  | nothing => exact fun _ => ⟨_, rfl, fun _ => rfl⟩
  | margin | labelMargin => exact .margin
  | fail fault => exact fun state => Written.takes_ofFault state fault
  | report record => exact fun _ => ⟨_, rfl, fun _ => rfl⟩
  | literal hscan => exact fun _ => ⟨_, hscan, fun _ => rfl⟩
  | ownText => exact .text hown
  | childText hchild => exact .text (htexts _ hchild)
  | directive _ hchild => exact .directive (htexts _ hchild)
  | child hchild => exact hchildren _ (List.mem_of_getElem? hchild) _
  | endpoint hoperator hchild =>
    exact hbelow _ (List.mem_of_getElem? hoperator) _ (List.mem_of_getElem? hchild) _
  | append _ _ hfirst hsecond => exact fun state => (hfirst state).andThen hsecond
  | within _ hbody => exact .within hbody
  | unlessSkipping _ hbody => exact .unlessSkipping hbody
  | fewer _ _ hdoc => exact hdoc

/-- Trees without brackets in their texts close the brackets that their rules open. -/
theorem isBalanced_treeDoc {tree : Tree} (htexts : ∀ node ∈ tree.walk, IsBracketFree node.text) :
    (treeDoc tree).IsBalanced := by
  induction tree using Tree.inductionBelow with
  | step tree hchildren hbelow =>
    have hwalk : ∀ child ∈ tree.children, ∀ node ∈ child.walk, IsBracketFree node.text :=
      fun child hchild node hnode => htexts node (Tree.mem_walk_of_child hchild hnode)
    obtain ⟨uses, hrule, -, -⟩ := isComposed_rule tree
    intro stack
    refine (hrule stack).takes (htexts tree tree.mem_walk_self) ?_ ?_ ?_
    · exact fun child hchild => hwalk child hchild child child.mem_walk_self
    · exact fun child hchild => hchildren child hchild (hwalk child hchild)
    · intro child hchild below hmem
      refine hbelow child hchild below hmem fun node hnode => ?_
      exact hwalk child hchild node (Tree.mem_walk_of_child hmem hnode)

/-- A tree without brackets in its texts is rendered as a well-nested text, in every
state.  If rendering fails, what was written until then is the start of one. -/
theorem rendered_brackets_nest (tree : Tree) (state : State)
    (htexts : ∀ node ∈ tree.walk, ∀ text ∈ node.text, ∀ char ∈ text.toList,
      isBracket char = false) :
    ((renderPart tree state).fault? = none →
      WellNested (renderPart tree state).text.toList) ∧
    ∃ rest, WellNested ((renderPart tree state).text.toList ++ rest) := by
  obtain ⟨stack, hscan, hstack⟩ := isBalanced_treeDoc htexts [] state
  constructor
  · intro hfault
    obtain rfl := hstack hfault
    exact (wellNested_iff_scan _).2 hscan
  · exact exists_wellNested_append hscan

/-- The declarator inside another one has parentheses.  An element selection without an
index fails inside two open brackets. -/
theorem rendered_brackets_nest_declarators :
    let nested : Tree := .node .declarator none none
      [.node .declarator none none [.leaf .identifier "p" none],
        .node .arrayModifier none none [.leaf .constant "2" none]]
    let broken : Tree := .node .declarator none none
      [.node .arrayModifier none none [.node .elementSelection none none []]]
    (renderPart nested .initial).text = "(p ) [2] " ∧
    WellNested (renderPart nested .initial).text.toList ∧
    (renderPart broken .initial).text = "[[" ∧
    ∃ rest, WellNested ((renderPart broken .initial).text.toList ++ rest) := by
  intro nested broken
  have hplain : (nested.walk ++ broken.walk).all (fun node => node.text.all fun text =>
      text.toList.all fun char => isBracket char = false) = true := by decide +kernel
  simp only [List.all_append, Bool.and_eq_true, List.all_eq_true, Option.all_eq_true,
    decide_eq_true_eq] at hplain
  have hnested := rendered_brackets_nest nested .initial hplain.1
  have hbroken := rendered_brackets_nest broken .initial hplain.2
  exact ⟨rfl, hnested.1 rfl, rfl, hbroken.2⟩

end NescTree.Render
