import NescTree.Proofs.Notation.Grammar

/-!
# Where reading stops

Tokens are viable if more tokens can follow them so that the reader accepts the whole.
The reader takes a token exactly if the tokens up to it are viable, since in every
situation the open lists can still be closed.  So reading stops at the first token that
takes viability away, with a message that depends on the lists that are open there.
-/

namespace NescTree.Notation

def readStream (source : Source) (stream : TokenStream) : Except Fault (List Tree) :=
  let started := Cursor.start source stream
  match started.result with
  | .error fault => .error fault
  | .ok _ => (started.cursor.readUntil Situation.isFinished).result

theorem readTrees_eq_readStream (name : Option String) (text : String) :
    readTrees name text = readStream ⟨name, some text⟩ (tokenize name text) := rfl

/-- Tokens that end with the mark of the end, and only there, and that are read. -/
def Accepted (source : Source) (tokens : List Token) : Prop :=
  ∃ front last, tokens = front ++ [last] ∧ (∀ token ∈ front, token.type ≠ .finish) ∧
    last.type = .finish ∧ ∃ trees, readStream source ⟨tokens, none⟩ = .ok trees

/-- Tokens that are the beginning of accepted ones. -/
def Viable (source : Source) (tokens : List Token) : Prop :=
  ∃ rest, Accepted source (tokens ++ rest)

def AllClosed (tokens : List Token) : Prop :=
  tokens.countP (fun token => token.type = .opening) =
    tokens.countP (fun token => token.type = .closing)

/-- Whether what follows some tokens directly follows an opening parenthesis. -/
def FollowsOpening (tokens : List Token) : Prop :=
  ∃ last ∈ tokens.getLast?, last.type = .opening

/-- What is said about a token that cannot follow others. -/
structure Complaint (before : List Token) (token : Token) (message : String) : Prop where
  between : AllClosed before → message = "Expected \"(\", got \"" ++ token.type.name ++ "\""
  notWord : FollowsOpening before → token.type ≠ .word → message = "Expected a node kind"
  unknown : FollowsOpening before → token.type = .word →
    Kind.ofName? token.value = none ∧ message = "Unknown node kind \"" ++ token.value ++ "\""
  unfinished : ¬ AllClosed before → ¬ FollowsOpening before →
    token.type = .finish ∧ message = "Unexpected end of file"

namespace Complaint

variable {before : List Token} {token : Token}

theorem of_allClosed (hclosed : AllClosed before) (hnot : ¬ FollowsOpening before) :
    Complaint before token ("Expected \"(\", got \"" ++ token.type.name ++ "\"") where
  between _ := rfl
  notWord hfollows := absurd hfollows hnot
  unknown hfollows := absurd hfollows hnot
  unfinished hopen := absurd hclosed hopen

theorem of_notWord (hopen : ¬ AllClosed before) (hfollows : FollowsOpening before)
    (htype : token.type ≠ .word) : Complaint before token "Expected a node kind" where
  between hclosed := absurd hclosed hopen
  notWord _ _ := rfl
  unknown _ hword := absurd hword htype
  unfinished _ hnot := absurd hfollows hnot

theorem of_unknown (hopen : ¬ AllClosed before) (hfollows : FollowsOpening before)
    (htype : token.type = .word) (hname : Kind.ofName? token.value = none) :
    Complaint before token ("Unknown node kind \"" ++ token.value ++ "\"") where
  between hclosed := absurd hclosed hopen
  notWord _ hother := absurd htype hother
  unknown _ _ := ⟨hname, rfl⟩
  unfinished _ hnot := absurd hfollows hnot

theorem of_finish (hopen : ¬ AllClosed before) (hnot : ¬ FollowsOpening before)
    (htype : token.type = .finish) : Complaint before token "Unexpected end of file" where
  between hclosed := absurd hclosed hopen
  notWord hfollows := absurd hfollows hnot
  unknown hfollows := absurd hfollows hnot
  unfinished _ _ := ⟨htype, rfl⟩

end Complaint

section Acceptance

variable {source : Source} {front tokens : List Token} {last : Token}

/-- Reading tokens up to a mark of the end is taking them one after the other. -/
theorem readStream_eq (htokens : ∀ token ∈ front, token.type ≠ .finish)
    (hlast : last.type = .finish) :
    readStream source ⟨front ++ [last], none⟩ =
      ((Situation.between []).takeAll source front).bind (Situation.conclude source last) := by
  obtain ⟨first, rest, hstream⟩ :=
    List.exists_cons_of_ne_nil (List.append_ne_nil_of_right_ne_nil front
      (List.cons_ne_nil last []))
  rw [← result_drive_isFinished source htokens hlast (.between []) hstream.symm, hstream]
  rfl

/-- Tokens are accepted if taking them leaves no list open. -/
theorem accepted_iff (htokens : ∀ token ∈ front, token.type ≠ .finish)
    (hlast : last.type = .finish) :
    Accepted source (front ++ [last]) ↔
      ∃ reversed, (Situation.between []).takeAll source front = .ok (.between reversed) := by
  constructor
  · rintro ⟨_, _, -, -, -, trees, hread⟩
    rw [readStream_eq htokens hlast] at hread
    obtain ⟨situation, htake, hconclude⟩ := bind_eq_ok_iff.1 hread
    cases situation with
    | between reversed => exact ⟨reversed, htake⟩
    | opened outer reversed => simp [Situation.conclude] at hconclude
    | inside frame outer reversed => simp [Situation.conclude] at hconclude
  · rintro ⟨reversed, htake⟩
    refine ⟨front, last, rfl, htokens, hlast, reversed.reverse, ?_⟩
    rw [readStream_eq htokens hlast, htake]
    rfl

/-- Viable tokens are all taken. -/
theorem Viable.exists_takeAll (hviable : Viable source tokens)
    (htokens : ∀ token ∈ tokens, token.type ≠ .finish) :
    ∃ situation, (Situation.between []).takeAll source tokens = .ok situation := by
  obtain ⟨rest, haccepted⟩ := hviable
  obtain ⟨front, last, heq, hfront, hlast, -⟩ := id haccepted
  obtain ⟨more, rfl⟩ : ∃ more, front = tokens ++ more := by
    rcases List.eq_nil_or_concat rest with rfl | ⟨more, token, rfl⟩
    · rw [List.append_nil] at heq
      exact absurd hlast (htokens last (by simp [heq]))
    · rw [List.concat_eq_append, ← List.append_assoc] at heq
      exact ⟨more, (List.append_inj_left' heq rfl).symm⟩
  rw [heq, accepted_iff hfront hlast] at haccepted
  obtain ⟨reversed, htake⟩ := haccepted
  rw [Situation.takeAll_append] at htake
  obtain ⟨situation, hsituation, -⟩ := bind_eq_ok_iff.1 htake
  exact ⟨situation, hsituation⟩

end Acceptance

section Completion

variable {source : Source} {tokens : List Token}

def closingToken : Token := ⟨.closing, ")", ⟨0, 0, 1⟩⟩

def kindToken : Token := ⟨.word, Kind.null.name, ⟨0, 0, 4⟩⟩

/-- As many closing parentheses as there are open lists close them all. -/
theorem exists_takeAll_closing (source : Source) (frame : Frame) (outer : List Frame)
    (reversed : List Tree) :
    ∃ trees, (Situation.inside frame outer reversed).takeAll source
      (List.replicate (outer.length + 1) closingToken) = .ok (.between trees) := by
  induction outer generalizing frame with
  | nil => exact ⟨frame.closed :: reversed, rfl⟩
  | cons parent outer ih =>
    obtain ⟨trees, htrees⟩ := ih (parent.withChild frame.closed)
    refine ⟨trees, ?_⟩
    rw [List.length_cons, List.replicate_succ, Situation.takeAll_cons,
      Situation.step_closing rfl]
    exact htrees

/-- In every situation the open lists can be closed. -/
theorem exists_completion (source : Source) (situation : Situation) :
    ∃ rest trees, situation.takeAll source rest = .ok (.between trees) ∧
      ∀ token ∈ rest, token.type ≠ .finish := by
  have hclosing : ∀ count, ∀ token ∈ List.replicate count closingToken,
      token.type ≠ .finish := by
    intro count token hmem
    rw [List.eq_of_mem_replicate hmem]
    decide
  cases situation with
  | between reversed => exact ⟨[], reversed, rfl, by simp⟩
  | opened outer reversed =>
    obtain ⟨trees, htrees⟩ :=
      exists_takeAll_closing source (.opened .null kindToken.span) outer reversed
    refine ⟨kindToken :: List.replicate (outer.length + 1) closingToken, trees, ?_, ?_⟩
    · have hkind : kindToken.lexeme = (.word, Kind.null.name) := rfl
      rw [Situation.takeAll_cons, Situation.step_kind hkind]
      exact htrees
    · exact List.forall_mem_cons.2 ⟨by decide, hclosing _⟩
  | inside frame outer reversed =>
    obtain ⟨trees, htrees⟩ := exists_takeAll_closing source frame outer reversed
    exact ⟨_, trees, htrees, hclosing _⟩

/-- Tokens before the end are viable exactly if they are all taken. -/
theorem viable_iff (htokens : ∀ token ∈ tokens, token.type ≠ .finish) :
    Viable source tokens ↔
      ∃ situation, (Situation.between []).takeAll source tokens = .ok situation := by
  constructor
  · intro hviable
    exact hviable.exists_takeAll htokens
  · rintro ⟨situation, htake⟩
    obtain ⟨rest, trees, hrest, hplain⟩ := exists_completion source situation
    refine ⟨rest ++ [⟨.finish, "EOF", ⟨0, 0, 1⟩⟩], ?_⟩
    rw [← List.append_assoc]
    apply (accepted_iff (List.forall_mem_append.2 ⟨htokens, hplain⟩) rfl).2
    refine ⟨trees, ?_⟩
    rw [Situation.takeAll_append, htake]
    exact hrest

/-- Nothing can follow the mark of the end. -/
theorem accepted_of_viable {last : Token} (hlast : last.type = .finish)
    (hviable : Viable source (tokens ++ [last])) : Accepted source (tokens ++ [last]) := by
  obtain ⟨rest, haccepted⟩ := hviable
  rcases List.eq_nil_or_concat rest with rfl | ⟨more, token, rfl⟩
  · rwa [List.append_nil] at haccepted
  · obtain ⟨front, end_, heq, hfront, -⟩ := haccepted
    rw [List.concat_eq_append, ← List.append_assoc] at heq
    have hsame : tokens ++ [last] ++ more = front := List.append_inj_left' heq rfl
    exact absurd hlast (hfront last (by simp [← hsame]))

end Completion

namespace Situation

def depth : Situation → Nat
  | .between _ => 0
  | .opened outer _ | .inside _ outer _ => outer.length + 1

def isOpened : Situation → Bool
  | .opened _ _ => true
  | _ => false

section Depth

variable {source : Source} {situation next last : Situation} {token : Token}
variable {tokens : List Token}

/-- A token opens a list, closes one, or leaves their number as it is. -/
theorem depth_step (hstep : situation.step source token = .ok next) :
    next.depth + (if token.type = .closing then 1 else 0) =
        situation.depth + (if token.type = .opening then 1 else 0) ∧
      (next.isOpened = true ↔ token.type = .opening) := by
  obtain ⟨type, value, span⟩ := token
  cases situation with
  | between reversed =>
    cases type <;> simp [step, refusal?, take] at hstep
    subst hstep
    simp [depth, isOpened]
  | opened outer reversed =>
    cases type <;> simp [step, refusal?, take] at hstep
    cases hname : Kind.ofName? value with
    | none => simp [hname] at hstep
    | some kind =>
      obtain rfl : .inside (.opened kind span) outer reversed = next := by
        simpa [hname] using hstep
      simp [depth, isOpened]
  | inside frame outer reversed =>
    cases type with
    | opening =>
      cases hstep
      simp [depth, isOpened]
    | closing =>
      cases hstep
      cases outer <;> simp [close, depth, isOpened]
    | word =>
      obtain ⟨tree, -, rfl⟩ := map_eq_ok_iff.1 hstep
      simp [depth, isOpened]
    | string =>
      simp only [step, refusal?, take] at hstep
      by_cases hfresh : frame.fresh = true
      · rw [if_pos hfresh] at hstep
        obtain ⟨text, -, rfl⟩ := map_eq_ok_iff.1 hstep
        simp [depth, isOpened]
      · rw [if_neg hfresh, Except.ok.injEq] at hstep
        subst hstep
        simp [depth, isOpened]
    | finish => cases hstep

/-- The lists that are open are those that were opened and not closed. -/
theorem depth_takeAll (htake : situation.takeAll source tokens = .ok last) :
    last.depth + tokens.countP (fun token => token.type = .closing) =
      situation.depth + tokens.countP (fun token => token.type = .opening) := by
  induction tokens generalizing situation with
  | nil =>
    cases htake
    rfl
  | cons token tokens ih =>
    rw [takeAll_cons] at htake
    obtain ⟨middle, hstep, hrest⟩ := bind_eq_ok_iff.1 htake
    have hfirst := (depth_step hstep).1
    have hothers := ih hrest
    simp only [List.countP_cons, decide_eq_true_eq]
    omega

theorem isOpened_takeAll (htake : (between []).takeAll source tokens = .ok last) :
    last.isOpened = true ↔ FollowsOpening tokens := by
  rcases List.eq_nil_or_concat tokens with rfl | ⟨front, token, rfl⟩
  · cases htake
    simp [isOpened, FollowsOpening]
  · rw [List.concat_eq_append, takeAll_append] at htake
    obtain ⟨middle, -, hlast⟩ := bind_eq_ok_iff.1 htake
    rw [takeAll_cons] at hlast
    obtain ⟨after, hstep, hnil⟩ := bind_eq_ok_iff.1 hlast
    cases hnil
    rw [(depth_step hstep).2]
    simp [FollowsOpening]

/-- All lists are closed exactly between trees. -/
theorem allClosed_takeAll (htake : (between []).takeAll source tokens = .ok last) :
    AllClosed tokens ↔ last.depth = 0 := by
  have hdepth := depth_takeAll htake
  rw [depth, Nat.zero_add] at hdepth
  rw [AllClosed, ← hdepth, Nat.add_eq_right]

end Depth

end Situation

section Refusal

variable {source : Source} {situation : Situation} {token : Token} {tokens : List Token}

/-- Inside a list every token of a text is taken. -/
theorem Situation.exists_step_inside (hproper : Lexeme.IsProper token.lexeme) (frame : Frame)
    (outer : List Frame) (reversed : List Tree) :
    ∃ next, (inside frame outer reversed).step source token = .ok next := by
  obtain ⟨type, value, span⟩ := token
  cases type with
  | opening => exact ⟨_, rfl⟩
  | closing => exact ⟨_, rfl⟩
  | word =>
    have hlexeme : (Token.mk .word value span).lexeme = (.word, value) := rfl
    obtain ⟨tree, -, hstep⟩ := step_word hproper hlexeme
    exact ⟨_, hstep⟩
  | string =>
    by_cases hfresh : frame.fresh = true
    · obtain ⟨text, htext⟩ := IsQuoted.exists_unescape hproper
      simp [step, refusal?, take, hfresh, htext, Except.map]
    · have hlexeme : (Token.mk .string value span).lexeme = (.string, value) := rfl
      obtain ⟨tree, -, hstep⟩ := step_string (by simpa using hfresh) hlexeme
      exact ⟨_, hstep⟩
  | finish => exact hproper.elim

/-- A token of a text, or the mark of its end, is refused where it stands, with the
complaint that fits the tokens before it. -/
theorem exists_complaint_of_step {fault : Fault}
    (htake : (Situation.between []).takeAll source tokens = .ok situation)
    (htoken : token.type = .finish ∨ Lexeme.IsProper token.lexeme)
    (hstep : situation.step source token = .error fault) :
    ∃ cause : SyntaxCause, fault = .malformed cause (some (source.locate token.span)) ∧
      Complaint tokens token cause.message := by
  have hclosed := Situation.allClosed_takeAll htake
  have hopened := Situation.isOpened_takeAll htake
  obtain ⟨type, value, span⟩ := token
  cases situation with
  | between reversed =>
    have hnot : ¬ FollowsOpening tokens :=
      fun hfollows => Bool.false_ne_true (hopened.2 hfollows)
    refine ⟨.expected "(" type.name, ?_, .of_allClosed (hclosed.2 rfl) hnot⟩
    cases type <;> simp_all [Situation.step, Situation.refusal?, Situation.take]
  | opened outer reversed =>
    have hfollows : FollowsOpening tokens := hopened.1 rfl
    have hopen : ¬ AllClosed tokens := fun hall => Nat.succ_ne_zero _ (hclosed.1 hall)
    by_cases hword : type = .word
    · subst hword
      simp only [Situation.step, Situation.refusal?, Situation.take] at hstep
      cases hname : Kind.ofName? value with
      | some kind => simp [hname] at hstep
      | none =>
        rw [hname] at hstep
        cases hstep
        exact ⟨.unknownKind value, rfl, .of_unknown hopen hfollows rfl hname⟩
    · refine ⟨.expectedKind, ?_, .of_notWord hopen hfollows hword⟩
      cases type <;> simp_all [Situation.step, Situation.refusal?]
  | inside frame outer reversed =>
    have hnot : ¬ FollowsOpening tokens :=
      fun hfollows => Bool.false_ne_true (hopened.2 hfollows)
    have hopen : ¬ AllClosed tokens := fun hall => Nat.succ_ne_zero _ (hclosed.1 hall)
    obtain rfl : type = .finish := by
      rcases htoken with hfinish | hproper
      · exact hfinish
      · obtain ⟨next, hnext⟩ := Situation.exists_step_inside hproper frame outer reversed
        rw [hnext] at hstep
        cases hstep
    cases hstep
    exact ⟨.endOfFile, rfl, .of_finish hopen hnot rfl⟩

/-- If the end of the text takes viability away, some list is still open, and reading stops
there. -/
theorem exists_complaint_at_end {last : Token} (hplain : ∀ token ∈ tokens, token.type ≠ .finish)
    (hlast : last.type = .finish) (hbefore : Viable source tokens)
    (hend : ¬ Viable source (tokens ++ [last])) :
    ∃ cause : SyntaxCause,
      ((Situation.between []).takeAll source tokens).bind (Situation.conclude source last) =
          .error (.malformed cause (some (source.locate last.span))) ∧
        Complaint tokens last cause.message := by
  obtain ⟨situation, htake⟩ := hbefore.exists_takeAll hplain
  have hstep : ∃ fault, situation.step source last = .error fault ∧
      situation.conclude source last = .error fault := by
    cases situation with
    | between reversed =>
      refine absurd ⟨[], ?_⟩ hend
      rw [List.append_nil]
      exact (accepted_iff hplain hlast).2 ⟨reversed, htake⟩
    | opened outer reversed =>
      exact ⟨_, by simp [Situation.step, Situation.refusal?, hlast]; rfl, by
        simp [Situation.conclude, Situation.refusal?, hlast]⟩
    | inside frame outer reversed =>
      exact ⟨_, by simp [Situation.step, Situation.refusal?, hlast]; rfl, by
        simp [Situation.conclude, Situation.refusal?, hlast]⟩
  obtain ⟨fault, hrefused, hconclude⟩ := hstep
  obtain ⟨cause, rfl, hcomplaint⟩ := exists_complaint_of_step htake (.inl hlast) hrefused
  refine ⟨cause, ?_, hcomplaint⟩
  rw [htake]
  exact hconclude

/-- If a token of the text takes viability away, it is refused, whatever comes after it. -/
theorem exists_complaint_at_token {before after : List Token}
    (hproper : Lexeme.IsProper token.lexeme) (htype : token.type ≠ .finish)
    (hplain : ∀ other ∈ before, other.type ≠ .finish) (hbefore : Viable source before)
    (htoken : ¬ Viable source (before ++ [token])) :
    ∃ cause : SyntaxCause,
      (Situation.between []).takeAll source (before ++ token :: after) =
          .error (.malformed cause (some (source.locate token.span))) ∧
        Complaint before token cause.message := by
  obtain ⟨situation, htake⟩ := hbefore.exists_takeAll hplain
  cases hstep : situation.step source token with
  | ok next =>
    refine absurd ((viable_iff ?_).2 ⟨next, ?_⟩) htoken
    · exact List.forall_mem_append.2 ⟨hplain, List.forall_mem_singleton.2 htype⟩
    · rw [Situation.takeAll_append, htake, Except.bind, Situation.takeAll_cons, hstep]
      rfl
  | error fault =>
    obtain ⟨cause, rfl, hcomplaint⟩ := exists_complaint_of_step htake (.inr hproper) hstep
    refine ⟨cause, ?_, hcomplaint⟩
    rw [Situation.takeAll_append, htake, Except.bind, Situation.takeAll_cons, hstep]
    rfl

/-- Where the first token stands that takes viability away, reading stops. -/
theorem exists_complaint_of_viable {last : Token} {before after : List Token}
    (hproper : ∀ token ∈ tokens, Lexeme.IsProper token.lexeme)
    (hplain : ∀ token ∈ tokens, token.type ≠ .finish) (hlast : last.type = .finish)
    (hsplit : tokens ++ [last] = before ++ token :: after) (hbefore : Viable source before)
    (htoken : ¬ Viable source (before ++ [token])) :
    ∃ cause : SyntaxCause,
      ((Situation.between []).takeAll source tokens).bind (Situation.conclude source last) =
          .error (.malformed cause (some (source.locate token.span))) ∧
        Complaint before token cause.message := by
  rcases List.eq_nil_or_concat after with rfl | ⟨more, final, rfl⟩
  · obtain ⟨rfl, heq⟩ := List.append_inj' hsplit rfl
    obtain rfl : last = token := by simpa using heq
    exact exists_complaint_at_end hplain hlast hbefore htoken
  · have htokens : tokens = before ++ token :: more := by
      rw [List.concat_eq_append, ← List.cons_append, ← List.append_assoc] at hsplit
      exact List.append_inj_left' hsplit rfl
    subst htokens
    have hmember : token ∈ before ++ token :: more := by simp
    obtain ⟨cause, hrefused, hcomplaint⟩ :=
      @exists_complaint_at_token source token before more (hproper token hmember)
        (hplain token hmember) (fun other hother => hplain other (List.mem_append_left _ hother))
        hbefore htoken
    refine ⟨cause, ?_, hcomplaint⟩
    rw [hrefused]
    rfl

end Refusal

/-- A text without an open string is read exactly if every beginning of its tokens is
viable.  Otherwise reading stops at the first token that is not, counted with those before
it: the fault is at the place of that token, and its message says what is wrong there. -/
theorem first_unviable_token_reported (name : Option String) (text : String)
    (hfault : (tokenize name text).fault? = none) :
    let source : Source := ⟨name, some text⟩
    let tokens := (tokenize name text).tokens
    ((∃ trees, readTrees name text = .ok trees) ↔
      ∀ front, front <+: tokens → Viable source front) ∧
    ∀ index token, tokens[index]? = some token →
      (∀ earlier < index, Viable source (tokens.take (earlier + 1))) →
      ¬ Viable source (tokens.take (index + 1)) →
        ∃ cause : SyntaxCause,
          readTrees name text = .error (.malformed cause (some (source.locate token.span))) ∧
          Complaint (tokens.take index) token cause.message := by
  intro source tokens
  have hclosed := any_isUnclosed_of_fault? hfault
  have hplain : ∀ token ∈ tokensFrom .start (pieces text.toList), token.type ≠ .finish :=
    fun _ => type_ne_finish_of_mem_tokensFrom
  have hproper : ∀ token ∈ tokensFrom .start (pieces text.toList),
      Lexeme.IsProper token.lexeme :=
    fun _ => isProper_of_mem_tokensFrom (separated_pieces text.toList)
  have hstream : tokenize name text = ⟨tokens, none⟩ := by
    rw [← hfault]
  have htokens : tokens = tokensFrom .start (pieces text.toList) ++ [endToken text.toList] := by
    rw [show tokens = (tokenize name text).tokens from rfl, tokenize_of_closed name rfl hclosed]
  constructor
  · rw [readTrees_eq_readStream, hstream, htokens]
    constructor
    · rintro ⟨trees, hread⟩ front ⟨rest, hrest⟩
      refine ⟨rest, ?_⟩
      rw [hrest]
      exact ⟨_, _, rfl, hplain, rfl, trees, hread⟩
    · intro hviable
      obtain ⟨_, _, -, -, -, hread⟩ := accepted_of_viable rfl (hviable _ (List.prefix_refl _))
      exact hread
  · intro index token hindex hearlier hunviable
    have hsplit : tokens = tokens.take index ++ token :: tokens.drop (index + 1) := by
      obtain ⟨hlength, rfl⟩ := List.getElem?_eq_some_iff.1 hindex
      rw [← List.drop_eq_getElem_cons hlength, List.take_append_drop]
    have htake : tokens.take (index + 1) = tokens.take index ++ [token] := by
      rw [List.take_add_one, hindex]
      rfl
    have hbefore : Viable source (tokens.take index) := by
      cases index with
      | zero => exact (viable_iff (by simp)).2 ⟨_, rfl⟩
      | succ index => exact hearlier index (Nat.lt_succ_self index)
    rw [htake] at hunviable
    rw [readTrees_of_closed name rfl hclosed]
    exact exists_complaint_of_viable hproper hplain rfl (htokens.symm.trans hsplit) hbefore
      hunviable

/-- The list within the list has no known kind: its word is named, not what comes after. -/
theorem first_unviable_token_reported_unknown_kind :
    (tokenize none "(FILE (b c))").fault? = none ∧
    ∃ cause : SyntaxCause, cause.message = "Unknown node kind \"b\"" ∧
      readTrees none "(FILE (b c))" = .error (.malformed cause
        (some (Source.locate ⟨none, some "(FILE (b c))"⟩ ⟨1, 8, 1⟩))) := by
  have hfault : (tokenize none "(FILE (b c))").fault? = none := by decide +kernel
  have htokens : (tokenize none "(FILE (b c))").tokens =
      [⟨.opening, "(", ⟨1, 1, 1⟩⟩, ⟨.word, "FILE", ⟨1, 2, 4⟩⟩, ⟨.opening, "(", ⟨1, 7, 1⟩⟩,
        ⟨.word, "b", ⟨1, 8, 1⟩⟩, ⟨.word, "c", ⟨1, 10, 1⟩⟩, ⟨.closing, ")", ⟨1, 11, 1⟩⟩,
        ⟨.closing, ")", ⟨1, 12, 1⟩⟩, ⟨.finish, "EOF", ⟨1, 1, 1⟩⟩] := by
    decide +kernel
  have hearlier : ∀ earlier < 3, Viable ⟨none, some "(FILE (b c))"⟩
      ((tokenize none "(FILE (b c))").tokens.take (earlier + 1)) := by
    intro earlier hless
    rw [htokens]
    have hcases : earlier = 0 ∨ earlier = 1 ∨ earlier = 2 := by omega
    rcases hcases with rfl | rfl | rfl
    · exact (viable_iff (by decide)).2 ⟨_, rfl⟩
    · exact (viable_iff (by decide)).2 ⟨_, rfl⟩
    · exact (viable_iff (by decide)).2 ⟨_, rfl⟩
  have hunviable : ¬ Viable ⟨none, some "(FILE (b c))"⟩
      ((tokenize none "(FILE (b c))").tokens.take (3 + 1)) := by
    intro hviable
    rw [htokens] at hviable
    obtain ⟨situation, htake⟩ := hviable.exists_takeAll (by decide)
    cases htake
  obtain ⟨cause, hread, hcomplaint⟩ :=
    (first_unviable_token_reported none "(FILE (b c))" hfault).2 3 ⟨.word, "b", ⟨1, 8, 1⟩⟩
      (by rw [htokens]; rfl) hearlier hunviable
  have hunknown := hcomplaint.unknown (by rw [htokens]; exact ⟨_, rfl, rfl⟩) rfl
  exact ⟨hfault, cause, hunknown.2, hread⟩

end NescTree.Notation
