import NescTree.Proofs.Notation.Spelling

/-!
# Reading by recursive descent

Trees can also be read by actions that call each other: a list reads its children, and a
child that is a list reads a list.  The actions are given a number of rounds, which goes
down with every call, so that calls without an end would run out of them.  The reader
keeps the lists that are open on a stack instead.  Each action is shown to take the
reader from one situation to another, or to stop where the reader stops, with the same
fault and at the same token; a round for every token is enough.
-/

namespace NescTree.Notation

/-- An action on a cursor.  It has no outcome when it runs out of rounds. -/
def Descent (α : Type) : Type := Cursor → Option (Outcome α)

namespace Descent

instance : Monad Descent where
  pure value := fun cursor => some ⟨.ok value, cursor⟩
  bind first next := fun cursor =>
    match first cursor with
    | none => none
    | some ⟨.error fault, after⟩ => some ⟨.error fault, after⟩
    | some ⟨.ok value, after⟩ => next value after

section Actions

variable {α : Type}

def noRounds : Descent α := fun _ => none

def ofResult (result : Except Fault α) : Descent α := fun cursor => some ⟨result, cursor⟩

def stopAt (cause : SyntaxCause) (span : Span) : Descent α :=
  fun cursor => some ⟨.error (.malformed cause (cursor.source.locate span)), cursor⟩

def peek : Descent Token := fun cursor => some ⟨cursor.peek, cursor⟩

def next : Descent Token := fun cursor => some cursor.next

def consume (wanted : TokenType) : Descent Token := fun cursor => some (cursor.consume wanted.name)

/-- The kind at the start of a list, and its place. -/
def head : Descent (Kind × Span) := do
  let token ← peek
  if token.type = .word then
    let word ← next
    match Kind.ofName? word.value with
    | some kind => return (kind, word.span)
    | none => stopAt (.unknownKind word.value) word.span
  else stopAt .expectedKind token.span

/-- The text of a list, if there is a string after its kind. -/
def label : Descent (Option String) := do
  let token ← peek
  if token.type = .string then
    let quoted ← next
    ofResult ((unescape quoted.value).map some)
  else return none

/-- A child: a list, which the given action reads, or a single token. -/
def child (list : Descent Tree) : Descent Tree := do
  let token ← peek
  if token.type = .opening then list
  else
    let token ← next
    match token.type with
    | .string => return .leaf .stringLiteral token.value token.span
    | .word => ofResult (wordTree token.value token.span)
    | _ => stopAt (.unexpected token.value) token.span

mutual

def tree : Nat → Descent Tree
  | 0 => noRounds
  | rounds + 1 => do
    let _ ← consume .opening
    let (kind, span) ← head
    let text ← label
    let items ← children rounds
    let _ ← consume .closing
    return .node kind text span items

def children : Nat → Descent (List Tree)
  | 0 => noRounds
  | rounds + 1 => do
    let token ← peek
    match token.type with
    | .closing => return []
    | .finish => stopAt .endOfFile token.span
    | _ =>
      let first ← child (tree rounds)
      let others ← children rounds
      return first :: others

end

def trees : Nat → Descent (List Tree)
  | 0 => noRounds
  | rounds + 1 => do
    let token ← peek
    if token.type = .finish then return []
    else
      let first ← tree rounds
      let others ← trees rounds
      return first :: others

end Actions

def readTrees (rounds : Nat) (name : Option String) (text : String) :
    Option (Except Fault (List Tree)) :=
  let started := Cursor.start ⟨name, some text⟩ (tokenize name text)
  match started.result with
  | .error fault => some (.error fault)
  | .ok _ => (trees rounds started.cursor).map Outcome.result

end Descent

/-- Take tokens from the current one on until the goal is reached. -/
def Cursor.drive (goal : Situation → Token → Bool) (situation : Situation) (cursor : Cursor) :
    Outcome Situation :=
  match cursor.current with
  | none => ⟨.error (.noToken "typ"), cursor⟩
  | some token => Notation.drive goal cursor.source cursor.fault? situation token cursor.upcoming

namespace Descent

/-- An action that stops where the reader stops, or takes it to a situation that depends on
the result of the action. -/
def Mirrors {α : Type} (goal : Situation → Token → Bool) (situation : Situation) (cursor : Cursor)
    (action : Descent α) (following : α → Situation) (post : α → Cursor → Prop) : Prop :=
  ∃ outcome, action cursor = some outcome ∧
    match outcome.result with
    | .error fault => cursor.drive goal situation = ⟨.error fault, outcome.cursor⟩
    | .ok value =>
      cursor.drive goal situation = outcome.cursor.drive goal (following value) ∧
        post value outcome.cursor

section Sequence

variable {α β : Type} {goal : Situation → Token → Bool} {situation : Situation} {cursor : Cursor}

theorem bind_apply (first : Descent α) (next : α → Descent β) :
    (first >>= next) cursor =
      match first cursor with
      | none => none
      | some ⟨.error fault, after⟩ => some ⟨.error fault, after⟩
      | some ⟨.ok value, after⟩ => next value after := rfl

theorem Mirrors.pure {following : α → Situation} {post : α → Cursor → Prop} {value : α}
    (hfollowing : following value = situation) (hpost : post value cursor) :
    Mirrors goal situation cursor (pure value) following post :=
  ⟨⟨.ok value, cursor⟩, rfl, by rw [hfollowing], hpost⟩

/-- One action after the other. -/
theorem Mirrors.bind {first : Descent α} {next : α → Descent β} {middle : α → Situation}
    {following : β → Situation} {between : α → Cursor → Prop} {post : β → Cursor → Prop}
    (hfirst : Mirrors goal situation cursor first middle between)
    (hnext : ∀ value after, between value after →
      Mirrors goal (middle value) after (next value) following post) :
    Mirrors goal situation cursor (first >>= next) following post := by
  obtain ⟨⟨result, after⟩, hrun, hdrive⟩ := hfirst
  cases result with
  | error fault =>
    exact ⟨⟨.error fault, after⟩, by simp only [bind_apply, hrun], hdrive⟩
  | ok value =>
    obtain ⟨hdrive, hbetween⟩ := hdrive
    obtain ⟨outcome, hagain, hlast⟩ := hnext value after hbetween
    refine ⟨outcome, by simp only [bind_apply, hrun, hagain], ?_⟩
    rw [hdrive]
    exact hlast

end Sequence

section Steps

variable {goal : Situation → Token → Bool} {situation : Situation} {cursor : Cursor}

def IsBetween (goal : Situation → Token → Bool) : Prop :=
  ∀ situation token, goal situation token = true → ∃ reversed, situation = .between reversed

/-- Looking at the current token changes nothing. -/
theorem mirrors_peek :
    Mirrors goal situation cursor peek (fun _ => situation)
      fun token after => after = cursor ∧ cursor.current = some token := by
  cases hcurrent : cursor.current with
  | none =>
    exact ⟨⟨.error (.noToken "typ"), cursor⟩, by simp [peek, Cursor.peek, hcurrent], by
      simp [Cursor.drive, hcurrent]⟩
  | some token =>
    exact ⟨⟨.ok token, cursor⟩, by simp [peek, Cursor.peek, hcurrent], rfl, rfl, rfl⟩

/-- Fewer tokens are left. -/
def IsAfter (cursor after : Cursor) : Prop :=
  after.upcoming.length < cursor.upcoming.length

theorem drive_of_refusal {source : Source} {token : Token} {upcoming : List Token}
    {fault? : Option Fault} {fault : Fault} (hgoal : goal situation token = false)
    (hrefusal : situation.refusal? source token = some fault) :
    drive goal source fault? situation token upcoming =
      ⟨.error fault, ⟨source, some token, upcoming, fault?⟩⟩ := by
  rw [drive.eq_def]
  simp [hgoal, hrefusal]

/-- A refused token stops the reader. -/
theorem mirrors_stopAt {α : Type} {token : Token} {cause : SyntaxCause}
    {following : α → Situation} {post : α → Cursor → Prop}
    (hcurrent : cursor.current = some token) (hgoal : goal situation token = false)
    (hrefusal : situation.refusal? cursor.source token =
      some (.malformed cause (cursor.source.locate token.span))) :
    Mirrors goal situation cursor (stopAt cause token.span) following post := by
  obtain ⟨source, current, upcoming, fault?⟩ := cursor
  obtain rfl : current = some token := hcurrent
  exact ⟨_, rfl, drive_of_refusal hgoal hrefusal⟩

/-- Taking a token that is not refused, and making something of it, is a step of the
reader. -/
theorem mirrors_next {α : Type} {token : Token} (make : Except Fault α) {act : Token → Descent α}
    {following : α → Situation} {post : α → Cursor → Prop} (hcurrent : cursor.current = some token)
    (hfinish : token.type ≠ .finish) (hgoal : goal situation token = false)
    (hrefusal : situation.refusal? cursor.source token = none)
    (htake : situation.take cursor.source token = make.map following)
    (hact : ∀ after, after.source = cursor.source → act token after = some ⟨make, after⟩)
    (hpost : ∀ value after, make = .ok value → IsAfter cursor after → post value after) :
    Mirrors goal situation cursor (next >>= act) following post := by
  obtain ⟨source, current, upcoming, fault?⟩ := cursor
  obtain rfl : current = some token := hcurrent
  cases upcoming with
  | nil =>
    refine ⟨⟨.error (fault?.getD .exhausted), ⟨source, some token, [], none⟩⟩, ?_, ?_⟩
    · simp [bind_apply, next, Cursor.next, hfinish, Cursor.advance, Except.map]
    · simp [Cursor.drive, drive, hgoal, hrefusal]
  | cons upper rest =>
    refine ⟨⟨make, ⟨source, some upper, rest, fault?⟩⟩, ?_, ?_⟩
    · simp [bind_apply, next, Cursor.next, hfinish, Cursor.advance, Except.map, hact]
    · cases make with
      | error fault => simp [Cursor.drive, drive, hgoal, hrefusal, htake, Except.map]
      | ok value =>
        exact ⟨by simp [Cursor.drive, drive, hgoal, hrefusal, htake, Except.map],
          hpost value _ rfl (Nat.lt_succ_self _)⟩

theorem consume_eq_next {wanted : TokenType} {token : Token}
    (hcurrent : cursor.current = some token) (htype : token.type = wanted) :
    consume wanted cursor = (next >>= pure) cursor := by
  simp only [consume, Cursor.consume, hcurrent, htype, if_true, bind_apply, next]
  obtain ⟨result, after⟩ := cursor.next
  cases result <;> rfl

theorem name_injective : Function.Injective TokenType.name := by
  intro type other
  cases type <;> cases other <;> simp [TokenType.name]

theorem consume_eq_stopAt {wanted : TokenType} {token : Token}
    (hcurrent : cursor.current = some token) (htype : token.type ≠ wanted) :
    consume wanted cursor = stopAt (.expected wanted.name token.type.name) token.span cursor := by
  simp [consume, Cursor.consume, hcurrent, name_injective.ne htype, stopAt]

/-- Consuming a token of the wanted type, which is not refused, is a step of the reader. -/
theorem mirrors_consume {wanted : TokenType} {token : Token} {following : Situation}
    (hcurrent : cursor.current = some token) (htype : token.type = wanted)
    (hfinish : wanted ≠ .finish) (hgoal : goal situation token = false)
    (hrefusal : situation.refusal? cursor.source token = none)
    (htake : situation.take cursor.source token = .ok following) :
    Mirrors goal situation cursor (consume wanted) (fun _ => following)
      fun _ => IsAfter cursor := by
  rw [Mirrors, consume_eq_next hcurrent htype]
  exact mirrors_next (.ok token) hcurrent (htype ▸ hfinish) hgoal hrefusal htake
    (fun _ _ => rfl) fun _ _ _ hafter => hafter

/-- The situations in which a list can be read: between trees, and at the opening
parenthesis of a child. -/
inductive Expects (cursor : Cursor) : Situation → Prop
  | between {reversed : List Tree} : Expects cursor (.between reversed)
  | inside {frame : Frame} {outer : List Frame} {reversed : List Tree} {token : Token}
      (hcurrent : cursor.current = some token) (htype : token.type = .opening) :
      Expects cursor (.inside frame outer reversed)

theorem Mirrors.of_none {α : Type} {action : Descent α} {following : α → Situation}
    {post : α → Cursor → Prop} (hcurrent : cursor.current = none)
    (haction : action cursor = some ⟨.error (.noToken "typ"), cursor⟩) :
    Mirrors goal situation cursor action following post :=
  ⟨_, haction, by simp [Cursor.drive, hcurrent]⟩

theorem mirrors_opening (hexpects : Expects cursor situation)
    (hgoal : ∀ token, cursor.current = some token → goal situation token = false) :
    Mirrors goal situation cursor (consume .opening)
      (fun _ => .opened situation.frames situation.reversed) fun _ => IsAfter cursor := by
  cases hcurrent : cursor.current with
  | none => exact .of_none hcurrent (by simp [consume, Cursor.consume, hcurrent])
  | some token =>
    by_cases htype : token.type = .opening
    · have htoken : situation.refusal? cursor.source token = none ∧
          situation.take cursor.source token =
            .ok (.opened situation.frames situation.reversed) := by
        cases hexpects <;>
          simp [Situation.refusal?, Situation.take, htype, Situation.frames, Situation.reversed]
      exact mirrors_consume hcurrent htype (by decide) (hgoal token hcurrent) htoken.1 htoken.2
    · rw [Mirrors, consume_eq_stopAt hcurrent htype]
      refine mirrors_stopAt hcurrent (hgoal token hcurrent) ?_
      cases hexpects with
      | between => cases htoken : token.type <;> simp_all [Situation.refusal?, TokenType.name]
      | inside hother hopening =>
        obtain rfl : token = _ := Option.some.inj (hcurrent.symm.trans hother)
        exact absurd hopening htype

theorem IsBetween.opened (hgoal : IsBetween goal) (outer : List Frame) (reversed : List Tree)
    (token : Token) : goal (.opened outer reversed) token = false := by
  rw [← Bool.not_eq_true]
  intro hreached
  obtain ⟨_, hbetween⟩ := hgoal _ _ hreached
  cases hbetween

theorem IsBetween.inside (hgoal : IsBetween goal) (frame : Frame) (outer : List Frame)
    (reversed : List Tree) (token : Token) :
    goal (.inside frame outer reversed) token = false := by
  rw [← Bool.not_eq_true]
  intro hreached
  obtain ⟨_, hbetween⟩ := hgoal _ _ hreached
  cases hbetween

theorem mirrors_head (hgoal : IsBetween goal) {outer : List Frame} {reversed : List Tree} :
    Mirrors goal (.opened outer reversed) cursor head
      (fun (kind, span) => .inside (.opened kind span) outer reversed)
      fun _ => IsAfter cursor := by
  refine mirrors_peek.bind ?_
  rintro token after ⟨rfl, hcurrent⟩
  by_cases htype : token.type = .word
  · rw [if_pos htype]
    let kind? : Except Fault (Kind × Span) := match Kind.ofName? token.value with
      | some kind => .ok (kind, token.span)
      | none => .error (.malformed (.unknownKind token.value) (after.source.locate token.span))
    refine mirrors_next kind? hcurrent (by simp [htype]) (hgoal.opened _ _ _)
      (by simp [Situation.refusal?, htype]) ?_ ?_ fun _ _ _ hafter => hafter
    · cases hname : Kind.ofName? token.value <;> simp [Situation.take, hname, kind?, Except.map]
    · intro later hsource
      cases hname : Kind.ofName? token.value with
      | none => simp only [hname, kind?, stopAt, hsource]
      | some kind =>
        simp only [hname, kind?]
        rfl
  · rw [if_neg htype]
    refine mirrors_stopAt hcurrent (hgoal.opened _ _ _) ?_
    cases htoken : token.type <;> simp_all [Situation.refusal?]

/-- A string directly after a kind gives the list its text. -/
theorem mirrors_label (hgoal : IsBetween goal) {kind : Kind} {span : Span} {outer : List Frame}
    {reversed : List Tree} :
    Mirrors goal (.inside (.opened kind span) outer reversed) cursor label
      (fun text => .inside ⟨kind, text, span, [], text.isNone⟩ outer reversed)
      fun text after => after.upcoming.length ≤ cursor.upcoming.length ∧
        (text = none → ∀ token, after.current = some token → token.type ≠ .string) := by
  refine mirrors_peek.bind ?_
  rintro token after ⟨rfl, hcurrent⟩
  by_cases htype : token.type = .string
  · rw [if_pos htype]
    refine mirrors_next ((unescape token.value).map some) hcurrent (by simp [htype])
      (hgoal.inside _ _ _ _) (by simp [Situation.refusal?, htype]) ?_ (fun _ _ => rfl) ?_
    · cases htext : unescape token.value <;>
        simp [Situation.take, htype, htext, Except.map, Frame.opened]
    · intro text later hmake hafter
      refine ⟨Nat.le_of_lt hafter, fun hnone => ?_⟩
      obtain ⟨_, -, hsome⟩ := map_eq_ok_iff.1 hmake
      simp [hnone] at hsome
  · rw [if_neg htype]
    refine .pure rfl ⟨Nat.le_refl _, fun _ other hother => ?_⟩
    obtain rfl : token = other := Option.some.inj (hcurrent.symm.trans hother)
    exact htype

/-- A child that is a single token. -/
theorem mirrors_leaf (hgoal : IsBetween goal) {list : Descent Tree} {frame : Frame}
    {outer : List Frame} {reversed : List Tree} {token : Token}
    (hcurrent : cursor.current = some token)
    (hstring : frame.fresh = true → token.type ≠ .string)
    (htype : token.type = .word ∨ token.type = .string) :
    Mirrors goal (.inside frame outer reversed) cursor (child list)
      (Situation.inside frame outer reversed).withTree fun _ => IsAfter cursor := by
  refine mirrors_peek.bind ?_
  rintro other after ⟨rfl, hother⟩
  obtain rfl : token = other := Option.some.inj (hcurrent.symm.trans hother)
  rw [if_neg (by rcases htype with htype | htype <;> simp [htype])]
  let tree? : Except Fault Tree := match token.type with
    | .string => .ok (.leaf .stringLiteral token.value token.span)
    | _ => wordTree token.value token.span
  refine mirrors_next tree? hcurrent ?_ (hgoal.inside _ _ _ _) ?_ ?_ ?_ fun _ _ _ hafter => hafter
  · rcases htype with htype | htype <;> simp [htype]
  · rcases htype with htype | htype <;> simp [Situation.refusal?, htype]
  · rcases htype with htype | htype
    · cases hword : wordTree token.value token.span <;>
        simp [Situation.take, htype, tree?, hword, Except.map, Situation.withTree]
    · have hfresh : frame.fresh = false := by
        rw [← Bool.not_eq_true]
        exact fun hfresh => hstring hfresh htype
      simp [Situation.take, htype, hfresh, tree?, Except.map, Situation.withTree]
  · intro later _
    rcases htype with htype | htype <;> simp only [htype, tree?] <;> rfl

end Steps

section Rounds

variable {goal : Situation → Token → Bool} {rounds : Nat}

/-- The number of rounds is enough for a list with fewer tokens after its first. -/
def ReadsLists (goal : Situation → Token → Bool) (rounds : Nat) : Prop :=
  ∀ (situation : Situation) (cursor : Cursor), Expects cursor situation →
    (∀ token, cursor.current = some token → goal situation token = false) →
      cursor.upcoming.length < rounds →
        Mirrors goal situation cursor (tree rounds) situation.withTree fun _ => IsAfter cursor

/-- The number of rounds is enough for the children at the end of a list.  They end at its
closing parenthesis. -/
def ReadsChildren (goal : Situation → Token → Bool) (rounds : Nat) : Prop :=
  ∀ (frame : Frame) (outer : List Frame) (reversed : List Tree) (cursor : Cursor),
    (frame.fresh = true → ∀ token, cursor.current = some token → token.type ≠ .string) →
      cursor.upcoming.length + 1 < rounds →
        Mirrors goal (.inside frame outer reversed) cursor (children rounds)
          (fun items => items.foldl Situation.withTree (.inside frame outer reversed))
          fun _ after => after.upcoming.length ≤ cursor.upcoming.length ∧
            ∃ token, after.current = some token ∧ token.type = .closing

/-- Closing a list makes it a tree, or a child of the list around it. -/
theorem Expects.close_eq_withTree {cursor : Cursor} {situation : Situation}
    (hexpects : Expects cursor situation) (frame : Frame) :
    Situation.close frame situation.frames situation.reversed =
      situation.withTree frame.closed := by
  cases hexpects <;> rfl

theorem readsLists_succ (hbetween : IsBetween goal) (hchildren : ReadsChildren goal rounds) :
    ReadsLists goal (rounds + 1) := by
  intro situation cursor hexpects hgoal hrounds
  refine (mirrors_opening hexpects hgoal).bind fun _ second hsecond => ?_
  refine (mirrors_head hbetween).bind fun head third hthird => ?_
  refine (mirrors_label hbetween).bind ?_
  rintro text fourth ⟨hfourth, hstring⟩
  have hleft : fourth.upcoming.length + 1 < rounds := by
    simp only [IsAfter] at hsecond hthird
    omega
  have hfresh : text.isNone = true →
      ∀ token, fourth.current = some token → token.type ≠ .string := by
    simpa using hstring
  refine (hchildren ⟨head.1, text, head.2, [], text.isNone⟩ situation.frames situation.reversed
    fourth hfresh hleft).bind ?_
  rintro items fifth ⟨hfifth, token, hcurrent, htype⟩
  obtain ⟨full, hfull, hclosed⟩ := foldl_withTree_inside ⟨head.1, text, head.2, [], text.isNone⟩
    situation.frames situation.reversed items
  rw [hfull]
  have hclosing : Mirrors goal (.inside full situation.frames situation.reversed) fifth
      (consume .closing) (fun _ => Situation.close full situation.frames situation.reversed)
      fun _ => IsAfter fifth :=
    mirrors_consume hcurrent htype (by decide) (hbetween.inside full _ _ _)
      (by simp [Situation.refusal?, htype]) (by simp [Situation.take, htype])
  refine hclosing.bind fun _ last hlast => .pure ?_ ?_
  · rw [hexpects.close_eq_withTree, hclosed]
    rfl
  · simp only [IsAfter] at *
    omega

theorem mirrors_child (hbetween : IsBetween goal) (hlists : ReadsLists goal rounds) {frame : Frame}
    {outer : List Frame} {reversed : List Tree} {cursor : Cursor} {token : Token}
    (hcurrent : cursor.current = some token)
    (hstring : frame.fresh = true → token.type ≠ .string)
    (hclosing : token.type ≠ .closing) (hfinish : token.type ≠ .finish)
    (hrounds : cursor.upcoming.length < rounds) :
    Mirrors goal (.inside frame outer reversed) cursor (child (tree rounds))
      (Situation.inside frame outer reversed).withTree fun _ => IsAfter cursor := by
  by_cases htype : token.type = .opening
  · refine mirrors_peek.bind ?_
    rintro other after ⟨rfl, hother⟩
    obtain rfl : token = other := Option.some.inj (hcurrent.symm.trans hother)
    rw [if_pos htype]
    exact hlists _ _ (.inside hcurrent htype) (fun _ _ => hbetween.inside _ _ _ _) hrounds
  · refine mirrors_leaf hbetween hcurrent hstring ?_
    cases htoken : token.type <;> simp_all

theorem readsChildren_succ (hbetween : IsBetween goal) (hlists : ReadsLists goal rounds)
    (hchildren : ReadsChildren goal rounds) : ReadsChildren goal (rounds + 1) := by
  intro frame outer reversed cursor hstring hrounds
  refine mirrors_peek.bind ?_
  rintro token after ⟨rfl, hcurrent⟩
  have hmore : token.type ≠ .closing → token.type ≠ .finish →
      Mirrors goal (.inside frame outer reversed) after
        (child (tree rounds) >>= fun first => children rounds >>= fun others =>
          Pure.pure (first :: others))
        (fun items => items.foldl Situation.withTree (.inside frame outer reversed))
        fun _ later => later.upcoming.length ≤ after.upcoming.length ∧
          ∃ token, later.current = some token ∧ token.type = .closing := by
    intro hclosing hfinish
    refine (mirrors_child hbetween hlists hcurrent (fun hfresh => hstring hfresh _ hcurrent)
      hclosing hfinish (Nat.lt_of_succ_lt_succ hrounds)).bind fun first second hsecond => ?_
    simp only [IsAfter] at hsecond
    have hothers := hchildren (frame.withChild first) outer reversed second
      (by simp [Frame.withChild]) (by omega)
    refine hothers.bind ?_
    rintro others last ⟨hlast, hclosed⟩
    exact .pure rfl ⟨by omega, hclosed⟩
  cases htype : token.type with
  | closing => exact .pure rfl ⟨Nat.le_refl _, token, hcurrent, htype⟩
  | finish =>
    exact mirrors_stopAt hcurrent (hbetween.inside _ _ _ _) (by simp [Situation.refusal?, htype])
  | opening => exact hmore (by simp [htype]) (by simp [htype])
  | word => exact hmore (by simp [htype]) (by simp [htype])
  | string => exact hmore (by simp [htype]) (by simp [htype])

/-- Whatever the number of rounds is, it is enough for lists and children that are short. -/
theorem readsLists_and_readsChildren (hbetween : IsBetween goal) (rounds : Nat) :
    ReadsLists goal rounds ∧ ReadsChildren goal rounds := by
  induction rounds with
  | zero =>
    exact ⟨fun _ _ _ _ hrounds => absurd hrounds (Nat.not_lt_zero _),
      fun _ _ _ _ _ hrounds => absurd hrounds (Nat.not_lt_zero _)⟩
  | succ rounds ih =>
    exact ⟨readsLists_succ hbetween ih.2, readsChildren_succ hbetween ih.1 ih.2⟩

end Rounds

theorem isBetween_isFinished : IsBetween Situation.isFinished := by
  intro situation token hgoal
  cases situation <;> simp_all [Situation.isFinished]

/-- Reading one tree after the other takes the reader to the end of the text. -/
theorem mirrors_trees {rounds : Nat} (reversed : List Tree) (cursor : Cursor)
    (hrounds : cursor.upcoming.length + 1 < rounds) :
    Mirrors Situation.isFinished (.between reversed) cursor (trees rounds)
      (fun items => items.foldl Situation.withTree (.between reversed))
      fun _ after => ∃ token, after.current = some token ∧ token.type = .finish := by
  induction rounds generalizing reversed cursor with
  | zero => exact absurd hrounds (Nat.not_lt_zero _)
  | succ rounds ih =>
    refine mirrors_peek.bind ?_
    rintro token after ⟨rfl, hcurrent⟩
    by_cases htype : token.type = .finish
    · rw [if_pos htype]
      exact .pure rfl ⟨token, hcurrent, htype⟩
    · rw [if_neg htype]
      have hgoal : ∀ other, after.current = some other →
          Situation.isFinished (.between reversed) other = false := by
        intro other hother
        obtain rfl : token = other := Option.some.inj (hcurrent.symm.trans hother)
        simp [Situation.isFinished, htype]
      have hfirst := (readsLists_and_readsChildren isBetween_isFinished rounds).1 _ after .between
        hgoal (Nat.lt_of_succ_lt_succ hrounds)
      refine hfirst.bind fun first second hsecond => ?_
      simp only [IsAfter] at hsecond
      exact (ih (first :: reversed) second (by omega)).bind fun others last hlast => .pure rfl hlast

/-- A round for every token, and one more, is enough to read a text by recursive descent,
with the result that the reader gives. -/
theorem readTrees_eq (name : Option String) (text : String) {rounds : Nat}
    (hrounds : (tokenize name text).tokens.length < rounds) :
    readTrees rounds name text = some (Notation.readTrees name text) := by
  cases htokens : (tokenize name text).tokens with
  | nil => simp [readTrees, Notation.readTrees, Cursor.start, Cursor.advance, htokens]
  | cons first rest =>
    let cursor : Cursor := ⟨⟨name, some text⟩, some first, rest, (tokenize name text).fault?⟩
    have hleft : cursor.upcoming.length + 1 < rounds := by simpa [htokens] using hrounds
    obtain ⟨⟨result, after⟩, hrun, hdrive⟩ := mirrors_trees [] cursor hleft
    simp only [readTrees, Notation.readTrees, Cursor.start, Cursor.advance, htokens, hrun,
      Cursor.readUntil, cursor]
    simp only [Cursor.drive, cursor] at hdrive
    cases result with
    | error fault =>
      rw [hdrive]
      rfl
    | ok items =>
      obtain ⟨hdrive, token, hcurrent, htype⟩ := hdrive
      rw [hdrive, hcurrent, foldl_withTree_between]
      simp only []
      rw [drive.eq_def]
      simp [Situation.isFinished, htype, Except.map, Situation.trees]

end Descent

end NescTree.Notation
