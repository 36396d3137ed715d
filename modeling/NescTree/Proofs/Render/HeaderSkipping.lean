import NescTree.Proofs.Render.Inclusion
import NescTree.Proofs.Render.RootPath

/-!
# Leaving out the contents of headers

At the top level of a file or implementation, the directives before a child decide
whether it is rendered.  Only directives change that: rendering a child that has none
below it leaves it as it is.
-/

namespace NescTree.Render

open State

section KeepingHeaders

/-- Whether a program leaves it as it is whether headers are skipped. -/
def Doc.KeepsHeaders (doc : Doc) : Prop :=
  ∀ state, (doc.run state).state.headers = state.headers

theorem Scope.headers_change (scope : Scope) (state : State) :
    (scope.change state).headers = state.headers := by
  cases scope <;> rfl

theorem Undo.headers_apply {undo : Undo} {state restored : State}
    (hundo : undo.apply state = .ok restored) : restored.headers = state.headers := by
  cases undo with
  | indentation amount | parentheses previous closing =>
    cases hundo
    rfl
  | parameters =>
    simp only [Undo.apply, dropScope] at hundo
    split at hundo
    · cases hundo
    · cases hundo
      rfl
  | declarator closing =>
    obtain ⟨count, outer, -, rfl⟩ := countDeclarators_eq_ok hundo
    rfl

theorem Written.headers_leave (written : Written) (undo : Undo) :
    (written.leave undo).state.headers = written.state.headers := by
  rw [leave]
  split
  · rfl
  · exact Undo.headers_apply ‹_›
  · exact Undo.headers_apply ‹_›

theorem Written.headers_andThen {state : State} {written : Written} {next : State → Written}
    (hwritten : written.state.headers = state.headers)
    (hnext : ∀ middle, (next middle).state.headers = middle.headers) :
    (written.andThen next).state.headers = state.headers := by
  rw [andThen]
  split
  · exact hwritten
  · exact (hnext written.state).trans hwritten

/-- A rule, other than that of a line directive, leaves to other nodes to change whether
headers are skipped. -/
theorem Composed.keepsHeaders {tree : Tree} {scopes : List Scope} {uses : List Use}
    {before after : List Char} {doc : Doc} (hdoc : Composed tree scopes uses before after doc)
    (hkind : tree.kind ≠ .lineDirective)
    (hchildren : ∀ child ∈ tree.children, (treeDoc child).KeepsHeaders)
    (hbelow : ∀ child ∈ tree.children, ∀ below ∈ child.children, (treeDoc below).KeepsHeaders) :
    doc.KeepsHeaders := by
  induction hdoc with
  | nothing | margin | labelMargin | fail | report | literal => exact fun _ => rfl
  | ownText => exact fun _ => by cases tree.text <;> rfl
  | @childText _ _ child hchild => exact fun _ => by cases child.text <;> rfl
  | directive hdirective _ => exact absurd hdirective hkind
  | child hchild => exact hchildren _ (List.mem_of_getElem? hchild)
  | endpoint hoperator hchild =>
    exact hbelow _ (List.mem_of_getElem? hoperator) _ (List.mem_of_getElem? hchild)
  | append _ _ hfirst hsecond => exact fun state => Written.headers_andThen (hfirst state) hsecond
  | within _ hbody =>
    intro state
    rw [Doc.run]
    split
    · rfl
    · rename_i entered henter
      rw [Written.headers_leave, ← Scope.headers_change _ state, ← Scope.state_enter henter]
      exact Written.headers_andThen rfl (hbody [])
  | unlessSkipping _ hbody =>
    intro state
    rw [Doc.run]
    split
    · rfl
    · exact hbody state
  | fewer _ _ hdoc => exact hdoc

/-- A tree without line directives leaves it as it is whether headers are skipped. -/
theorem keepsHeaders_treeDoc {tree : Tree}
    (hwalk : ∀ node ∈ tree.walk, node.kind ≠ .lineDirective) : (treeDoc tree).KeepsHeaders := by
  induction tree using Tree.inductionBelow with
  | step tree hchildren hbelow =>
    have hinside : ∀ child ∈ tree.children, ∀ node ∈ child.walk, node.kind ≠ .lineDirective :=
      fun child hchild node hnode => hwalk node (Tree.mem_walk_of_child hchild hnode)
    obtain ⟨uses, hrule, -, -⟩ := isComposed_rule tree
    refine (hrule []).keepsHeaders (hwalk tree tree.mem_walk_self) ?_ ?_
    · exact fun child hchild => hchildren child hchild (hinside child hchild)
    · intro child hchild below hmem
      refine hbelow child hchild below hmem fun node hnode => ?_
      exact hinside child hchild node (Tree.mem_walk_of_child hmem hnode)

end KeepingHeaders

section Directives

def directiveName? (directive : Tree) : Option String := directive.children.head?.bind Tree.text

def namesHeader (directive : Tree) : Bool :=
  (directiveName? directive).any fun name => isHeaderName name.toList

def directives (children : List Tree) : List Tree :=
  children.filter fun child => child.kind = .lineDirective

/-- Whether what follows some children is shown: the last directive among them names no
header, or there is none and headers are not skipped from the start. -/
def shownAfter (start : HeaderMode) (before : List Tree) : Bool :=
  match (directives before).getLast? with
  | some directive => !namesHeader directive
  | none => start = .emitting

/-- Whether a directive that follows some children is the first of a run of directives
that name headers. -/
def startsRun (before : List Tree) (directive : Tree) : Bool :=
  namesHeader directive && (directives before).getLast?.all fun previous => !namesHeader previous

/-- Whether a directive that follows some children is written.  A run that contains the
first directive of all is only written if headers are not skipped from the start. -/
def isIncluded (start : HeaderMode) (before : List Tree) (directive : Tree) : Bool :=
  startsRun before directive && !((directives before).isEmpty && start = .skipping)

/-- The name of a header in an include directive: each run of backslashes becomes half as
many forward slashes, rounded up. -/
def includeName (name : String) : String :=
  String.ofList ((name.toList.splitBy (· == ·)).flatMap slashRun)

/-- What a child that follows others adds to the text. -/
def contribution (start : HeaderMode) (state : State) (before : List Tree) (child : Tree) :
    String :=
  if child.kind = .lineDirective then
    if isIncluded start before child then
      "#include " ++ includeName ((directiveName? child).getD "") ++ "\n"
    else ""
  else if shownAfter start before then (renderPart child { state with headers := .emitting }).text
  else ""

def modeAfter (start : HeaderMode) (before : List Tree) : HeaderMode :=
  if shownAfter start before then .emitting else .skipping

variable {start : HeaderMode} {before : List Tree} {child : Tree}

theorem modeAfter_append_directive (hkind : child.kind = .lineDirective) :
    modeAfter start (before ++ [child]) = if namesHeader child then .skipping else .emitting := by
  cases hheader : namesHeader child <;> simp [modeAfter, shownAfter, directives, hkind, hheader]

theorem modeAfter_append_other (hkind : child.kind ≠ .lineDirective) :
    modeAfter start (before ++ [child]) = modeAfter start before := by
  simp [modeAfter, shownAfter, directives, hkind]

theorem modeAfter_nil (start : HeaderMode) : modeAfter start [] = start := by
  cases start <;> rfl

/-- A directive is written if it names a header and what follows the other children is
shown. -/
theorem isIncluded_eq (start : HeaderMode) (before : List Tree) (directive : Tree) :
    isIncluded start before directive = (namesHeader directive && shownAfter start before) := by
  rw [isIncluded, startsRun, shownAfter]
  cases hlast : (directives before).getLast? with
  | none =>
    rw [List.getLast?_eq_none_iff] at hlast
    cases start <;> simp [hlast]
  | some previous =>
    have hne : directives before ≠ [] := by
      rintro hnil
      simp [hnil] at hlast
    simp [hne]

theorem includeName_eq_shownName (name : String) : includeName name = shownName name := by
  rw [includeName, shownName, forwardSlashes_eq_flatMap_splitBy]

end Directives

section TopLevel

/-- The program of a child at the top level of a file or implementation. -/
def topDoc (index : Nat) (child : Tree) : Doc :=
  if child.kind = .lineDirective then childDoc index child
  else .unlessSkipping (childDoc index child)

theorem unskipped_viewParts_cons (index : Nat) (child : Tree) (children : List Tree) :
    unskipped (viewParts index (child :: children)) =
      .append (topDoc index child) (unskipped (viewParts (index + 1) children)) := by
  simp only [unskipped, viewParts, List.map_cons, Doc.seq, kind_toPart, topDoc]
  rfl

theorem run_lineDirective {directive : Tree} {name : String}
    (hkind : directive.kind = .lineDirective) (hname : directiveName? directive = some name)
    (state : State) : (treeDoc directive).run state = (Doc.directive (some name)).run state := by
  obtain ⟨kind, label, span, children⟩ := directive
  obtain rfl : kind = .lineDirective := hkind
  obtain ⟨first, hfirst, htext⟩ := Option.bind_eq_some_iff.1 hname
  have hchild : (Tree.node .lineDirective label span children).children[0]? = some first := by
    rwa [← List.head?_eq_getElem?]
  have hdoc : (view (.node .lineDirective label span children)).doc =
      (view (.node .lineDirective label span children)).withChild 0 fun part =>
        .directive part.text := rfl
  rw [treeDoc, hdoc, withChild_of_some hchild, text_toPart, htext]
  rfl

/-- What has to hold of the children at the top level, for a state at the start and
children that come before them. -/
structure Renderable (start : HeaderMode) (state : State) (before children : List Tree) :
    Prop where
  named : ∀ child ∈ children, child.kind = .lineDirective → (directiveName? child).isSome
  free : ∀ child ∈ children, child.kind ≠ .lineDirective →
    ∀ node ∈ child.walk, node.kind ≠ .lineDirective
  renders : ∀ index child, children[index]? = some child → child.kind ≠ .lineDirective →
    shownAfter start (before ++ children.take index) = true →
    (renderPart child { state with headers := .emitting }).fault? = none

variable {start : HeaderMode} {state : State} {before children : List Tree} {child : Tree}

theorem Renderable.tail (hchildren : Renderable start state before (child :: children)) :
    Renderable start state (before ++ [child]) children := by
  refine ⟨fun later hlater => hchildren.named later (List.mem_cons_of_mem child hlater),
    fun later hlater => hchildren.free later (List.mem_cons_of_mem child hlater), ?_⟩
  intro index later hlater hkind hshown
  exact hchildren.renders (index + 1) later hlater hkind (by simpa using hshown)

/-- Rendering a child without directives gives back the state. -/
theorem state_renderPart (hfree : ∀ node ∈ child.walk, node.kind ≠ .lineDirective)
    (state : State) : (renderPart child state).state = state := by
  have hagrees := (treeDoc child).agrees_run state
  have hheaders := keepsHeaders_treeDoc hfree state
  rw [State.mk.injEq]
  exact ⟨hagrees.level, hagrees.bare, hheaders, hagrees.declarators⟩

/-- One child adds its contribution, and changes what is shown after it if it is a
directive. -/
theorem run_topDoc (hchildren : Renderable start state before (child :: children)) (index : Nat) :
    let written := (topDoc index child).run { state with headers := modeAfter start before }
    written.fault? = none ∧ written.text = contribution start state before child ∧
      written.state = { state with headers := modeAfter start (before ++ [child]) } := by
  intro written
  by_cases hkind : child.kind = .lineDirective
  · obtain ⟨name, hname⟩ := Option.isSome_iff_exists.1
      (hchildren.named child List.mem_cons_self hkind)
    have hheader : namesHeader child = isHeaderName name.toList := by simp [namesHeader, hname]
    have hrun : written = (Doc.directive (some name)).run
        { state with headers := modeAfter start before } := by
      simp only [written, topDoc, if_pos hkind]
      exact run_lineDirective hkind hname _
    refine ⟨by rw [hrun]; rfl, ?_, ?_⟩
    · rw [hrun, text_run_directive, contribution, if_pos hkind, isIncluded_eq, hname,
        Option.getD_some, includeName_eq_shownName, hheader, modeAfter]
      cases shownAfter start before <;> simp
    · rw [hrun, modeAfter_append_directive hkind, hheader, ← HeaderMode.mode_enterFile]
      rfl
  · have hfree := hchildren.free child List.mem_cons_self hkind
    have hwritten : written = (Doc.unlessSkipping (childDoc index child)).run
        { state with headers := modeAfter start before } := by
      simp only [written, topDoc, if_neg hkind]
    rw [modeAfter_append_other hkind, hwritten, contribution, if_neg hkind]
    cases hshown : shownAfter start before with
    | false =>
      have hmode : modeAfter start before = .skipping := by simp [modeAfter, hshown]
      rw [hmode]
      exact ⟨rfl, rfl, rfl⟩
    | true =>
      have hmode : modeAfter start before = .emitting := by simp [modeAfter, hshown]
      have hrenders := hchildren.renders 0 child rfl hkind (by simpa using hshown)
      rw [hmode]
      exact ⟨hrenders, rfl, state_renderPart hfree _⟩

/-- The children at the top level add their contributions one after the other. -/
theorem run_unskipped (hchildren : Renderable start state before children) (index : Nat) :
    let written := (unskipped (viewParts index children)).run
      { state with headers := modeAfter start before }
    written.fault? = none ∧
      written.text = String.join (children.mapIdx fun position child =>
        contribution start state (before ++ children.take position) child) ∧
      written.state = { state with headers := modeAfter start (before ++ children) } := by
  induction children generalizing before index with
  | nil => exact ⟨rfl, rfl, by simp [unskipped, viewParts, Doc.seq, Doc.run, Written.ofText]⟩
  | cons child children ih =>
    obtain ⟨hfault, htext, hstate⟩ := run_topDoc hchildren index
    obtain ⟨hfault', htext', hstate'⟩ := ih hchildren.tail (index + 1)
    simp only [unskipped_viewParts_cons, Doc.run, Written.andThen, hfault, hstate, htext, hfault',
      htext', hstate']
    simp [List.mapIdx_cons, String.join_cons]

theorem prefix_of_mem_visits_topDoc {index : Nat} {path : List Nat} {visit : Visit}
    (hvisit : visit ∈ (topDoc index child).visits path state) :
    path ++ [index] <+: visit.path := by
  rw [topDoc] at hvisit
  split at hvisit
  · exact Doc.prefix_of_mem_visits hvisit
  · rw [Doc.visits] at hvisit
    split at hvisit
    · simp at hvisit
    · exact Doc.prefix_of_mem_visits hvisit

/-- What is visited is visited at or below the place of one of the children. -/
theorem exists_position_of_mem_visits {index : Nat} {path : List Nat} {visit : Visit}
    (hvisit : visit ∈ (unskipped (viewParts index children)).visits path state) :
    ∃ position, index ≤ position ∧ path ++ [position] <+: visit.path := by
  induction children generalizing index state with
  | nil => simp [unskipped, viewParts, Doc.seq, Doc.visits] at hvisit
  | cons child children ih =>
    rw [unskipped_viewParts_cons, Doc.visits, List.mem_append] at hvisit
    obtain hvisit | hvisit := hvisit
    · exact ⟨index, Nat.le_refl index, prefix_of_mem_visits_topDoc hvisit⟩
    · split at hvisit
      · simp at hvisit
      · obtain ⟨position, hposition, hprefix⟩ := ih hvisit
        exact ⟨position, Nat.le_of_succ_le hposition, hprefix⟩

/-- A child that is no directive is visited if it is shown, and only then. -/
theorem mem_visits_topDoc_iff (hkind : child.kind ≠ .lineDirective) {index : Nat}
    {path : List Nat} :
    path ++ [index] ∈ ((topDoc index child).visits path
        { state with headers := modeAfter start before }).map Visit.path ↔
      shownAfter start before = true := by
  rw [topDoc, if_neg hkind, Doc.visits]
  cases hshown : shownAfter start before <;>
    simp [modeAfter, hshown, isSkipping, childDoc, treeDoc, Doc.visits]

theorem mem_visits_unskipped_iff (hchildren : Renderable start state before children)
    {position : Nat} (hchild : children[position]? = some child)
    (hkind : child.kind ≠ .lineDirective) (index : Nat) (path : List Nat) :
    path ++ [index + position] ∈ ((unskipped (viewParts index children)).visits path
        { state with headers := modeAfter start before }).map Visit.path ↔
      shownAfter start (before ++ children.take position) = true := by
  induction children generalizing before index position with
  | nil => simp at hchild
  | cons first children ih =>
    obtain ⟨hfault, -, hstate⟩ := run_topDoc hchildren index
    rw [unskipped_viewParts_cons, Doc.visits, hfault, hstate, Option.isSome_none,
      if_neg Bool.false_ne_true, List.map_append, List.mem_append]
    cases position with
    | zero =>
      obtain rfl : first = child := by simpa using hchild
      have hrest : path ++ [index] ∉ ((unskipped (viewParts (index + 1) children)).visits path
          { state with headers := modeAfter start (before ++ [first]) }).map Visit.path := by
        intro hmem
        obtain ⟨visit, hvisit, hpath⟩ := List.mem_map.1 hmem
        obtain ⟨later, hlater, hprefix⟩ := exists_position_of_mem_visits hvisit
        have hsame : later = index := by simpa [hpath, List.prefix_append_right_inj] using hprefix
        omega
      rw [Nat.add_zero, or_iff_left hrest, mem_visits_topDoc_iff hkind, List.take_zero,
        List.append_nil]
    | succ position =>
      have hfirst : path ++ [index + (position + 1)] ∉ ((topDoc index first).visits path
          { state with headers := modeAfter start before }).map Visit.path := by
        intro hmem
        obtain ⟨visit, hvisit, hpath⟩ := List.mem_map.1 hmem
        have hprefix := prefix_of_mem_visits_topDoc hvisit
        simp [hpath, List.prefix_append_right_inj] at hprefix
      have hrest := ih hchildren.tail hchild (index + 1)
      rw [or_iff_right hfirst]
      simpa [Nat.add_assoc, Nat.add_comm 1] using hrest

end TopLevel

section WholeNodes

/-- The state in which the children of a file or implementation are rendered. -/
def contentsState (kind : Kind) (state : State) : State :=
  if kind = .implementation then { state with level := state.level + 1 } else state

/-- The text of a file or implementation around the texts of its children. -/
def framed (kind : Kind) (state : State) (contents : String) : String :=
  if kind = .implementation then
    Text.spaces state.margin ++ "implementation \x7b\n" ++ contents ++
      Text.spaces state.margin ++ "\x7d\n"
  else contents

/-- A block that is rendered without fault starts its last line where it started. -/
theorem run_block {contents : Doc} {state : State}
    (hfault : (contents.run { state with level := state.level + 1 }).fault? = none) :
    let inside := contents.run { state with level := state.level + 1 }
    let written := (block contents).run state
    written.fault? = none ∧
      written.text = "\x7b\n" ++ inside.text ++ Text.spaces state.margin ++ "\x7d\n" ∧
      written.state.headers = inside.state.headers := by
  intro inside written
  have hlevel := (contents.agrees_run { state with level := state.level + 1 }).level
  simp [written, inside, block, Doc.seq, Doc.run, LineStart.free, Written.andThen,
    Written.ofText, Scope.enter, Written.leave, Undo.apply, Undo.closing, State.margin, hfault,
    hlevel, String.append_assoc]

/-- Rendering a file or implementation is rendering its children at the top level. -/
theorem run_contents {tree : Tree} (hkind : tree.kind = .file ∨ tree.kind = .implementation)
    {state : State}
    (hfault : ((unskipped (viewParts 0 tree.children)).run
      (contentsState tree.kind state)).fault? = none) :
    let inside := (unskipped (viewParts 0 tree.children)).run (contentsState tree.kind state)
    let written := renderPart tree state
    written.fault? = none ∧ written.text = framed tree.kind state inside.text ∧
      written.state.headers = inside.state.headers := by
  obtain ⟨kind, label, span, children⟩ := tree
  obtain rfl | rfl : kind = .file ∨ kind = .implementation := hkind
  · exact ⟨hfault, rfl, rfl⟩
  · have hdoc : (view (.node .implementation label span children)).doc =
        .seq [.margin, "implementation ", block (unskipped (viewParts 0 children))] := rfl
    simp only [contentsState, Tree.kind_node, Tree.children_node, if_true] at hfault ⊢
    obtain ⟨hblock, htext, hheaders⟩ := run_block hfault
    simp only [renderPart, treeDoc, Doc.run, LineStart.free, hdoc, Doc.seq, Written.andThen,
      Written.ofText, hblock, htext, hheaders, framed, if_true]
    simp [← String.append_assoc]

theorem Doc.visits_append_left {second : Doc} {path : List Nat}
    (hsecond : ∀ later, second.visits path later = []) (first : Doc) (state : State) :
    (Doc.append first second).visits path state = first.visits path state := by
  rw [Doc.visits]
  split <;> simp [hsecond]

theorem visits_block (contents : Doc) (path : List Nat) (state : State) :
    (block contents).visits path state =
      contents.visits path { state with level := state.level + 1 } :=
  Doc.visits_append_left (fun _ => rfl) (.within (.indented 1) contents) state

/-- The nodes below a file or implementation are visited at the top level. -/
theorem treeVisits_eq_cons {tree : Tree} (hkind : tree.kind = .file ∨ tree.kind = .implementation)
    (state : State) :
    treeVisits tree state = ⟨[], state⟩ ::
      (unskipped (viewParts 0 tree.children)).visits [] (contentsState tree.kind state) := by
  obtain ⟨kind, label, span, children⟩ := tree
  obtain rfl | rfl : kind = .file ∨ kind = .implementation := hkind
  · rfl
  · have hdoc : (view (.node .implementation label span children)).doc.visits [] state =
        (Doc.append (block (unskipped (viewParts 0 children))) .nothing).visits [] state := rfl
    rw [treeVisits, treeDoc, Doc.visits, hdoc, Doc.visits_append_left (fun _ => rfl), visits_block]
    rfl

/-- In a file or implementation whose directives name files, no other child has directives
below it, and every child that is shown renders without fault.  Then the text is that of
the children that are shown, each as it is rendered on its own, with one include directive
at the start of each run of header directives.  A child is visited exactly if it is
shown. -/
theorem header_contents_left_out (tree : Tree) (state : State)
    (hkind : tree.kind = .file ∨ tree.kind = .implementation)
    (hnamed : ∀ child ∈ tree.children, child.kind = .lineDirective →
      (directiveName? child).isSome)
    (hfree : ∀ child ∈ tree.children, child.kind ≠ .lineDirective →
      ∀ node ∈ child.walk, node.kind ≠ .lineDirective)
    (hrenders : ∀ index child, tree.children[index]? = some child →
      child.kind ≠ .lineDirective → shownAfter state.headers (tree.children.take index) = true →
      (renderPart child { contentsState tree.kind state with headers := .emitting }).fault? =
        none) :
    (renderPart tree state).fault? = none ∧
    (renderPart tree state).text = framed tree.kind state
      (String.join (tree.children.mapIdx fun index child =>
        contribution state.headers (contentsState tree.kind state) (tree.children.take index)
          child)) ∧
    (∀ index child, tree.children[index]? = some child → child.kind ≠ .lineDirective →
      ([index] ∈ (treeVisits tree state).map Visit.path ↔
        shownAfter state.headers (tree.children.take index) = true)) ∧
    (renderPart tree state).state.headers = modeAfter state.headers tree.children := by
  have hchildren : Renderable state.headers (contentsState tree.kind state) [] tree.children :=
    ⟨hnamed, hfree, hrenders⟩
  have hstart : { contentsState tree.kind state with headers := modeAfter state.headers [] } =
      contentsState tree.kind state := by
    rw [modeAfter_nil, contentsState]
    split <;> rfl
  obtain ⟨hfault, htext, hstate⟩ := run_unskipped hchildren 0
  rw [hstart] at hfault htext hstate
  obtain ⟨hnone, hframed, hheaders⟩ := run_contents hkind hfault
  refine ⟨hnone, ?_, ?_, ?_⟩
  · rw [hframed, htext]
    simp
  · intro index child hchild hother
    have hvisits := mem_visits_unskipped_iff hchildren hchild hother 0 []
    rw [hstart] at hvisits
    simpa [treeVisits_eq_cons hkind] using hvisits
  · rw [hheaders, hstate, List.nil_append]

/-- The first run of header directives is skipped from the start, so only the second one is
written, at its first directive. -/
theorem header_contents_left_out_two_runs :
    let directive (name : String) : Tree :=
      .node .lineDirective none none [.leaf .stringLiteral name none]
    let tree : Tree := .node .implementation none none
      [.identifier "a", directive "\"b.h\"", .identifier "c", directive "\"m.nc\"",
        .identifier "d", directive "<e\\\\\\f.h>", .identifier "g", directive "\"i.h\""]
    let state : State := ⟨1, false, .skipping, [0]⟩
    (renderPart tree state).text = "    implementation \x7b\nd#include <e//f.h>\n    \x7d\n" ∧
    (renderPart tree state).fault? = none ∧
    ∀ index child, tree.children[index]? = some child → child.kind ≠ .lineDirective →
      ([index] ∈ (treeVisits tree state).map Visit.path ↔
        shownAfter state.headers (tree.children.take index) = true) := by
  intro directive tree state
  have hrendered : ∀ child ∈ tree.children, (renderPart child
      { contentsState tree.kind state with headers := .emitting }).fault? = none := by
    decide +kernel
  obtain ⟨hfault, htext, hvisits, -⟩ := header_contents_left_out tree state (.inr rfl)
    (by decide +kernel) (by decide +kernel)
    fun _ child hchild _ _ => hrendered child (List.mem_of_getElem? hchild)
  exact ⟨by rw [htext]; decide +kernel, hfault, hvisits⟩

end WholeNodes

end NescTree.Render
