import NescTree.CommandLine.Invocation
import NescTree.Proofs.Store.Opening

/-!
# The output file is there

The words of a command line act on the files only by opening output, which creates the
file.  So when a command line has been read, the file that output goes to exists.
-/

namespace NescTree.CommandLine

def Opened (store : Store) (target : Target) : Prop :=
  ∀ place, target = .file place → (store.get? place).isSome = true

/-- What every step keeps, many steps keep. -/
theorem foldlM_keeps {α β ε : Type} {kept : β → Prop} {act : β → α → Except ε β}
    (hact : ∀ start item next, kept start → act start item = .ok next → kept next)
    {items : List α} {start last : β} (hstart : kept start)
    (hlast : items.foldlM act start = .ok last) : kept last := by
  induction items generalizing start with
  | nil =>
    cases hlast
    exact hstart
  | cons item items ih =>
    rw [List.foldlM_cons] at hlast
    cases hnext : act start item with
    | error failure =>
      rw [hnext] at hlast
      cases hlast
    | ok next =>
      rw [hnext] at hlast
      exact ih (hact start item next hstart hnext) hlast

namespace Progress

variable {progress next : Progress}

/-- Whether the output file that was named last exists. -/
def HasOutput (progress : Progress) : Prop := Opened progress.store progress.invocation.target

theorem HasOutput.endRun (hprogress : progress.HasOutput) : (endRun progress).HasOutput := by
  rw [CommandLine.endRun]
  split
  · exact hprogress
  · exact hprogress

theorem hasOutput_openOutput {name : String} (hopen : openOutput progress name = .ok next) :
    next.HasOutput := by
  rw [openOutput] at hopen
  by_cases hterminal : name = "-"
  · rw [if_pos hterminal] at hopen
    cases hopen
    intro place htarget
    cases htarget
  · rw [if_neg hterminal] at hopen
    cases hwrite : progress.store.openWrite name with
    | error failure =>
      rw [hwrite] at hopen
      cases hopen
    | ok place =>
      rw [hwrite] at hopen
      cases hopen
      intro same htarget
      cases htarget
      rw [Store.get?_insert_self]
      rfl

theorem HasOutput.act {action : Action} (hprogress : progress.HasOutput)
    (hact : act progress action = .ok next) : next.HasOutput := by
  obtain ⟨switch, value?⟩ := action
  cases switch with
  | help | version => cases hact
  | log =>
    cases value? with
    | none =>
      cases hact
      exact hprogress
    | some value =>
      simp only [CommandLine.act] at hact
      cases hlevel : levelNumber? value with
      | none =>
        rw [hlevel] at hact
        cases hact
      | some level =>
        rw [hlevel] at hact
        cases hact
        exact hprogress
  | output =>
    cases value? with
    | none =>
      cases hact
      intro place htarget
      cases htarget
    | some name => exact hasOutput_openOutput hact
  | verbose | color | html | style | oneLine =>
    cases hact
    exact hprogress

theorem HasOutput.acts {actions : List Action} (hprogress : progress.HasOutput)
    (hacts : actions.foldlM CommandLine.act progress = .ok next) : next.HasOutput :=
  foldlM_keeps (fun _ _ _ => HasOutput.act) hprogress hacts

theorem HasOutput.step {table : List (String × Switch)} {word : Word}
    (hprogress : progress.HasOutput) (hstep : step table progress word = .ok next) :
    next.HasOutput := by
  unfold CommandLine.step at hstep
  cases hpending : progress.pending? with
  | some waiting =>
    obtain ⟨actions, switch⟩ := waiting
    rw [hpending] at hstep
    cases word with
    | operand value => exact @HasOutput.acts { progress with pending? := none } _ _ hprogress hstep
    | separator | switch found | unknown text => cases hstep
  | none =>
    rw [hpending] at hstep
    cases word with
    | operand text | separator =>
      cases hstep
      exact hprogress
    | unknown text =>
      cases hstep
      exact hprogress.endRun
    | switch found =>
      cases hexpand : expand table found with
      | error error =>
        simp only [hexpand] at hstep
        cases hstep
      | ok expansion =>
        obtain ⟨actions, pending?⟩ := expansion
        simp only [hexpand] at hstep
        cases pending? with
        | none => exact hprogress.endRun.acts hstep
        | some switch =>
          cases hstep
          exact hprogress.endRun

theorem HasOutput.finish {store : Store} {invocation : Invocation}
    (hprogress : progress.HasOutput) (hfinish : finish progress = .ok (store, invocation)) :
    Opened store invocation.target := by
  rw [CommandLine.finish] at hfinish
  cases hpending : progress.pending? with
  | some waiting =>
    rw [hpending] at hfinish
    cases hfinish
  | none =>
    simp only [hpending] at hfinish
    split at hfinish
    · cases hfinish
    · split at hfinish
      · cases hfinish
      · cases hfinish
        exact hprogress.endRun

end Progress

/-- When a command line has been read, the file that it names for the output exists. -/
theorem opened_of_parse {switches : List Switch} {store opened : Store} {arguments : List String}
    {invocation : Invocation} (hparse : parse switches store arguments = .ok (opened, invocation)) :
    Opened opened invocation.target := by
  rw [parse] at hparse
  cases hwords : parseWords switches store arguments with
  | error stopped =>
    rw [hwords] at hparse
    cases hparse
  | ok progress =>
    rw [hwords] at hparse
    refine Progress.HasOutput.finish ?_ hparse
    rw [parseWords] at hwords
    cases hclassify : classifyAll (nameTable switches) arguments with
    | error error =>
      simp only [hclassify] at hwords
      cases hwords
    | ok words =>
      simp only [hclassify] at hwords
      have hstart : Progress.HasOutput ⟨store, .initial, [], none, false, []⟩ := nofun
      exact foldlM_keeps (fun _ _ _ => Progress.HasOutput.step) hstart hwords

end NescTree.CommandLine
