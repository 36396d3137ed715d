import Mathlib.Data.List.Forall2
import NescTree.Render.Session

/-!
# Restoration of the render state

Leaving a scope undoes the change that entering it made, also after a failure inside
it.  So running a layout program, and with it every rule, gives back the state it was
started in, up to whether the contents of a header are being skipped.  One printer
can therefore render trees one after the other as if each were its first.
-/

namespace NescTree.Render

namespace State

/-- States that differ at most in whether the contents of a header are skipped. -/
structure Agrees (before after : State) : Prop where
  level : after.level = before.level
  bare : after.bare = before.bare
  declarators : after.declarators = before.declarators

namespace Agrees

theorem refl (state : State) : Agrees state state := ⟨rfl, rfl, rfl⟩

theorem trans {first second third : State} (hfirst : Agrees first second)
    (hsecond : Agrees second third) : Agrees first third :=
  ⟨hsecond.level.trans hfirst.level, hsecond.bare.trans hfirst.bare,
    hsecond.declarators.trans hfirst.declarators⟩

theorem withHeaders (state : State) (mode : HeaderMode) :
    Agrees state { state with headers := mode } := ⟨rfl, rfl, rfl⟩

end Agrees

theorem countDeclarators_eq_ok {state counted : State} {amount : Int}
    (hcount : state.countDeclarators amount = .ok counted) :
    ∃ count outer, state.declarators = count :: outer ∧
      counted = { state with declarators := (count + amount) :: outer } := by
  rw [countDeclarators] at hcount
  cases hdeclarators : state.declarators with
  | nil => simp [hdeclarators] at hcount
  | cons count outer =>
    rw [hdeclarators] at hcount
    exact ⟨count, outer, rfl, (Except.ok.inj hcount).symm⟩

/-- Counting one declarator down again takes back that one was counted. -/
theorem exists_countDeclarators_back {state counted later : State}
    (hcount : state.countDeclarators 1 = .ok counted) (hlater : Agrees counted later) :
    ∃ restored, later.countDeclarators (-1) = .ok restored ∧ Agrees state restored := by
  obtain ⟨count, outer, hdeclarators, rfl⟩ := countDeclarators_eq_ok hcount
  have hcurrent : later.declarators = (count + 1) :: outer := hlater.declarators
  refine ⟨{ later with declarators := count :: outer }, ?_, ?_⟩
  · rw [countDeclarators, hcurrent]
    simp only [Int.add_neg_cancel_right]
  · exact ⟨hlater.level, hlater.bare, hdeclarators.symm⟩

end State

open State

/-- What a scope changes can be undone in every state that agrees with the one after
entering it, and this gives a state that agrees with the one before. -/
theorem Scope.exists_undo {scope : Scope} {state later : State} {entered : Entered}
    (henter : scope.enter state = .ok entered) (hlater : Agrees entered.state later) :
    ∃ restored, entered.undo.apply later = .ok restored ∧ Agrees state restored := by
  cases scope with
  | indented amount =>
    cases henter
    refine ⟨_, rfl, ?_, hlater.bare, hlater.declarators⟩
    have hlevel : later.level = state.level + amount := hlater.level
    simp [hlevel]
  | parentheses enabled =>
    cases henter
    exact ⟨_, rfl, hlater.level, rfl, hlater.declarators⟩
  | operator =>
    cases henter
    exact ⟨_, rfl, hlater.level, rfl, hlater.declarators⟩
  | parameters =>
    cases henter
    have hdeclarators : later.declarators = 0 :: state.declarators := hlater.declarators
    refine ⟨{ later with declarators := state.declarators }, ?_, hlater.level, hlater.bare, rfl⟩
    simp [Undo.apply, dropScope, hdeclarators]
  | declarator =>
    obtain ⟨counted, hcount, hentered⟩ := bind_eq_ok_iff.1 henter
    cases hentered
    exact exists_countDeclarators_back hcount hlater
  | nestedDeclarator =>
    obtain ⟨nested, hnested, hrest⟩ := bind_eq_ok_iff.1 henter
    obtain ⟨counted, hcount, hentered⟩ := bind_eq_ok_iff.1 hrest
    cases hentered
    exact exists_countDeclarators_back hcount hlater

namespace Written

theorem agrees_andThen {state : State} {written : Written} {next : State → Written}
    (hwritten : Agrees state written.state)
    (hnext : ∀ middle, Agrees middle (next middle).state) :
    Agrees state (written.andThen next).state := by
  rw [andThen]
  cases written.fault? with
  | some fault => exact hwritten
  | none => exact hwritten.trans (hnext written.state)

theorem agrees_leave {scope : Scope} {state : State} {entered : Entered} {written : Written}
    (henter : scope.enter state = .ok entered)
    (hwritten : Agrees entered.state written.state) :
    Agrees state (written.leave entered.undo).state := by
  obtain ⟨restored, hundo, hrestored⟩ := Scope.exists_undo henter hwritten
  rw [leave, hundo]
  cases written.fault? with
  | some fault => exact hrestored
  | none => exact hrestored

end Written

/-- Running a program gives back the state, whether it fails or not and however lines are
started. -/
theorem Doc.agrees_run (doc : Doc) (state : State) (start : LineStart := LineStart.free) :
    Agrees state (doc.run state start).state := by
  induction doc generalizing state with
  | nothing => exact .refl state
  | write text =>
    cases text with
    | none => exact .refl state
    | some text => exact .refl state
  | margin =>
    rw [Doc.run]
    cases start state with
    | error fault => exact .refl state
    | ok spaces => exact .refl state
  | fail fault => exact .refl state
  | append first second hfirst hsecond =>
    exact Written.agrees_andThen (hfirst state) hsecond
  | within scope body hbody =>
    rw [Doc.run]
    cases henter : scope.enter state with
    | error fault => exact .refl state
    | ok entered =>
      apply Written.agrees_leave henter
      exact Written.agrees_andThen (.refl entered.state) hbody
  | directive name =>
    cases name with
    | none => exact .refl state
    | some name => exact .withHeaders state _
  | unlessSkipping body hbody =>
    rw [Doc.run]
    by_cases hskipping : state.isSkipping = true
    · rw [if_pos hskipping]
      exact .refl state
    · rw [if_neg hskipping]
      exact hbody state
  | report record => exact .refl state
  | descend index body hbody => exact hbody state
  | visit body hbody => exact hbody state

/-- Whatever the state of a session is, rendering a whole tree leaves a fresh one. -/
theorem Session.agrees_render (session : Session) (tree : Tree) :
    Agrees .initial (session.render tree).session.state :=
  Doc.agrees_run (wholeDoc tree) .initial LineStart.bounded

def Session.renderAll (session : Session) : List Tree → List Session.Step
  | [] => []
  | tree :: trees => session.render tree :: (session.render tree).session.renderAll trees

/-- Every rule gives back the indentation, the parentheses and the declarators that it
found, whether it fails or not.  So in a sequence of renderings on one printer, each
gives what a new printer gives, and ends in a state that is fresh but for headers. -/
theorem rendering_restores_state :
    (∀ (tree : Tree) (state : State) (start : LineStart),
      (renderPart tree state start).state.level = state.level ∧
      (renderPart tree state start).state.bare = state.bare ∧
      (renderPart tree state start).state.declarators = state.declarators) ∧
    ∀ (session : Session) (trees : List Tree),
      List.Forall₂ (fun step tree =>
          step.written = (Session.initial.render tree).written ∧
          step.session.state.level = 0 ∧ step.session.state.bare = false ∧
          step.session.state.declarators = [0])
        (session.renderAll trees) trees := by
  constructor
  · intro tree state start
    have hagrees := (treeDoc tree).agrees_run state start
    exact ⟨hagrees.level, hagrees.bare, hagrees.declarators⟩
  · intro session trees
    induction trees generalizing session with
    | nil => exact .nil
    | cons tree trees ih =>
      have hagrees := session.agrees_render tree
      exact .cons ⟨rfl, hagrees.level, hagrees.bare, hagrees.declarators⟩ (ih _)

end NescTree.Render
