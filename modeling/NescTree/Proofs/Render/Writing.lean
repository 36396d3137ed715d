import NescTree.Proofs.Render.Composition
import NescTree.Proofs.Render.Content
import NescTree.Proofs.Render.Restoration

/-!
# What programs write

A program that runs through writes a text and leaves the state as it found it.  The text
of a program that is put together from others is put together from theirs.  Stated once
for each way of putting programs together, this gives the text of a node from the texts
of its children without running any program.
-/

namespace NescTree.Render

variable {state : State}

/-- Counting a declarator down takes back that it was counted. -/
theorem State.countDeclarators_back {counted : State}
    (hcount : state.countDeclarators 1 = .ok counted) :
    counted.countDeclarators (-1) = .ok state := by
  obtain ⟨count, outer, hdeclarators, rfl⟩ := countDeclarators_eq_ok hcount
  obtain ⟨level, bare, headers, declarators⟩ := state
  dsimp only at hdeclarators
  simp only [countDeclarators, hdeclarators, Int.add_neg_cancel_right]

/-- Leaving a scope in the state in which it was entered gives back the state before. -/
theorem Scope.apply_undo {scope : Scope} {entered : Entered}
    (henter : scope.enter state = .ok entered) :
    entered.undo.apply entered.state = .ok state := by
  cases scope with
  | indented amount =>
    cases henter
    simp [Undo.apply]
  | parentheses enabled | operator | parameters =>
    cases henter
    rfl
  | declarator =>
    obtain ⟨counted, hcount, hentered⟩ := bind_eq_ok_iff.1 henter
    cases hentered
    exact State.countDeclarators_back hcount
  | nestedDeclarator =>
    obtain ⟨nested, -, hrest⟩ := bind_eq_ok_iff.1 henter
    obtain ⟨counted, hcount, hentered⟩ := bind_eq_ok_iff.1 hrest
    cases hentered
    exact State.countDeclarators_back hcount

/-- An operator with its parentheses, unless it goes without. -/
def enclosed (bare : Bool) (text : List Char) : List Char :=
  if bare then text else '(' :: ' ' :: (text ++ [' ', ')'])

@[simp]
theorem enclosed_true (text : List Char) : enclosed true text = text := rfl

@[simp]
theorem enclosed_false (text : List Char) :
    enclosed false text = '(' :: ' ' :: (text ++ [' ', ')']) := rfl

namespace Doc

/-- Whether a program runs without a fault, gives back the state, and writes a text. -/
structure Writes (doc : Doc) (state : State) (text : List Char) : Prop where
  fault : (doc.run state).fault? = none
  restored : (doc.run state).state = state
  written : (doc.run state).text.toList = text

namespace Writes

variable {doc first second body : Doc} {text other : List Char}

theorem congr (htext : doc.Writes state text) (heq : text = other) : doc.Writes state other :=
  heq ▸ htext

section Pieces

theorem nothing : Doc.nothing.Writes state [] := ⟨rfl, rfl, rfl⟩

theorem literal (text : String) : (Doc.write (some text)).Writes state text.toList :=
  ⟨rfl, rfl, rfl⟩

theorem textOf {text? : Option String} {text : String} (htext : text? = some text) :
    (Doc.write text?).Writes state text.toList := by
  rw [htext]
  exact literal text

theorem margin : Doc.margin.Writes state (List.replicate state.margin ' ') := by
  refine ⟨rfl, rfl, ?_⟩
  simp [run_margin, Written.ofText, Text.spaces]

theorem report (record : Record) : (Doc.report record).Writes state [] := ⟨rfl, rfl, rfl⟩

end Pieces

section Sequences

theorem append (hfirst : first.Writes state text) (hsecond : second.Writes state other) :
    (Doc.append first second).Writes state (text ++ other) := by
  have hrun : (Doc.append first second).run state =
      ⟨(second.run state).state, (first.run state).text ++ (second.run state).text,
        (first.run state).records ++ (second.run state).records,
        (second.run state).fault?⟩ := by
    simp [run, Written.andThen, hfirst.fault, hfirst.restored]
  constructor
  · rw [hrun]
    exact hsecond.fault
  · rw [hrun]
    exact hsecond.restored
  · rw [hrun, String.toList_append, hfirst.written, hsecond.written]

theorem nil : (Doc.seq []).Writes state [] := nothing

theorem cons {docs : List Doc} (hdoc : doc.Writes state text)
    (hdocs : (Doc.seq docs).Writes state other) :
    (Doc.seq (doc :: docs)).Writes state (text ++ other) :=
  append hdoc hdocs

/-- A literal text and what follows it. -/
theorem lit {text : String} {docs : List Doc} (hdocs : (Doc.seq docs).Writes state other) :
    (Doc.seq (.write (some text) :: docs)).Writes state (text.toList ++ other) :=
  append (literal text) hdocs

theorem seq {docs : List Doc} {texts : List (List Char)}
    (hdocs : List.Forall₂ (fun doc text => doc.Writes state text) docs texts) :
    (Doc.seq docs).Writes state texts.flatten := by
  induction hdocs with
  | nil => exact nil
  | cons hdoc _ ih => exact cons hdoc ih

theorem joined {separator : String} {docs : List Doc} {texts : List (List Char)}
    (hdocs : List.Forall₂ (fun doc text => doc.Writes state text) docs texts) :
    (Doc.joined separator docs).Writes state (separator.toList.intercalate texts) := by
  induction hdocs with
  | nil => exact nothing
  | cons hdoc hrest ih =>
    cases hrest with
    | nil =>
      rw [List.intercalate_singleton]
      exact hdoc
    | cons =>
      rw [List.intercalate_cons_cons, List.append_assoc]
      exact append hdoc (append (literal separator) ih)

end Sequences

section Scopes

/-- A scope writes its opening and closing texts around what is written in the state that
it makes. -/
theorem within {scope : Scope} {entered : Entered} (henter : scope.enter state = .ok entered)
    (hbody : body.Writes entered.state text) :
    (Doc.within scope body).Writes state
      (entered.opening.toList ++ (text ++ entered.undo.closing.toList)) := by
  have hrun : (Doc.within scope body).run state =
      ⟨state, entered.opening ++ (body.run entered.state).text ++ entered.undo.closing,
        (body.run entered.state).records, none⟩ := by
    simp [run, henter, Written.andThen, Written.ofText, Written.leave, hbody.fault,
      hbody.restored, Scope.apply_undo henter]
  constructor
  · rw [hrun]
  · rw [hrun]
  · rw [hrun, String.toList_append, String.toList_append, hbody.written, List.append_assoc]

theorem indented {amount : Int}
    (hbody : body.Writes { state with level := state.level + amount } text) :
    (Doc.within (.indented amount) body).Writes state text := by
  have hwithin := @within state body text (.indented amount) _ rfl hbody
  simpa [Undo.closing] using hwithin

theorem parentheses {enabled : Bool} (hbody : body.Writes { state with bare := !enabled } text) :
    (Doc.within (.parentheses enabled) body).Writes state text := by
  have hwithin := @within state body text (.parentheses enabled) _ rfl hbody
  simpa [Undo.closing] using hwithin

theorem operator (hbody : body.Writes { state with bare := false } text) :
    (Doc.within .operator body).Writes state (enclosed state.bare text) := by
  have hwithin := @within state body text .operator _ rfl hbody
  cases hbare : state.bare <;> simpa [hbare, Undo.closing] using hwithin

/-- Nothing is left out where no header is skipped. -/
theorem unlessSkipping (hheaders : state.headers = .emitting) (hbody : body.Writes state text) :
    (Doc.unlessSkipping body).Writes state text := by
  have hrun : (Doc.unlessSkipping body).run state = body.run state := by
    simp [run, State.isSkipping, hheaders]
  exact ⟨hrun ▸ hbody.fault, hrun ▸ hbody.restored, hrun ▸ hbody.written⟩

end Scopes

section Nodes

variable {tree : Tree}

/-- A tree writes what its rule writes. -/
theorem rule (hrule : (view tree).doc.Writes state text) : (treeDoc tree).Writes state text :=
  ⟨hrule.fault, hrule.restored, hrule.written⟩

/-- A child writes the same where it stands. -/
theorem child (htree : (treeDoc tree).Writes state text) (index : Nat) :
    (childDoc index tree).Writes state text :=
  ⟨htree.fault, htree.restored, htree.written⟩

/-- Children write one after the other what each of them writes. -/
theorem docs {children : List Tree} {text : Tree → List Char}
    (hchildren : ∀ child ∈ children, (treeDoc child).Writes state (text child)) (start : Nat) :
    List.Forall₂ (fun doc text => doc.Writes state text)
      ((viewParts start children).map Part.doc) (children.map text) := by
  induction children generalizing start with
  | nil => exact .nil
  | cons first children ih =>
    obtain ⟨hfirst, hrest⟩ := List.forall_mem_cons.1 hchildren
    exact .cons (hfirst.child start) (ih hrest (start + 1))

/-- What a part of a tree writes is what rendering it gives. -/
theorem result_renderPart (htree : (treeDoc tree).Writes state text) :
    (renderPart tree state).result = .ok (String.ofList text) := by
  have hfault : (renderPart tree state).fault? = none := htree.fault
  have htext : (renderPart tree state).text = String.ofList text := by
    apply String.toList_injective
    rw [String.toList_ofList]
    exact htree.written
  rw [Written.result, hfault, htext]

/-- A whole tree is what it writes at the start, and a line feed. -/
theorem renderText_eq (htree : (treeDoc tree).Writes .initial text) :
    renderText tree = .ok (String.ofList (text ++ ['\n'])) := by
  have hwhole : (wholeDoc tree).Writes .initial ([] ++ (text ++ ("\n".toList ++ []))) :=
    cons (report _) (cons htree (lit nil))
  have htext : (renderTree tree).text = String.ofList (text ++ ['\n']) := by
    apply String.toList_injective
    rw [String.toList_ofList]
    exact hwhole.written
  rw [renderText, Written.result, renderTree, hwhole.fault, ← renderTree, htext]

end Nodes

end Writes

end Doc

def textIn (state : State) (tree : Tree) : List Char := (renderPart tree state).text.toList

/-- Whether a tree can be rendered in every state, and leaves the state as it was. -/
def Renders (tree : Tree) : Prop := ∀ state, (treeDoc tree).Writes state (textIn state tree)

theorem textIn_eq_of_content_eq {tree other : Tree} (hcontent : tree.content = other.content)
    (state : State) : textIn state tree = textIn state other := by
  rw [textIn, textIn, renderPart, renderPart, treeDoc_eq_of_content_eq hcontent]

theorem Doc.Writes.textIn_eq {tree : Tree} {text : List Char}
    (htree : (treeDoc tree).Writes state text) : textIn state tree = text :=
  htree.written

theorem renders_of_writes {tree : Tree} {text : State → List Char}
    (htree : ∀ state, (treeDoc tree).Writes state (text state)) : Renders tree :=
  fun state => (htree state).congr (htree state).textIn_eq.symm

end NescTree.Render
