/-!
# Well-nested brackets

A text is well nested if each of its brackets is closed by its own kind, with a
well-nested text in between.  Reading a text from the left with a stack of the
brackets that are still to be closed decides this, and tells at every place whether
the text so far can be completed.
-/

namespace NescTree.Text

def closer? : Char → Option Char
  | '(' => some ')'
  | '[' => some ']'
  | '\x7b' => some '\x7d'
  | _ => none

def isCloser (char : Char) : Bool := char == ')' || char == ']' || char == '\x7d'

def isBracket (char : Char) : Bool := (closer? char).isSome || isCloser char

/-- Texts whose brackets are closed by their own kind, properly nested. -/
inductive WellNested : List Char → Prop where
  | nil : WellNested []
  | plain {char : Char} {rest : List Char} (hplain : isBracket char = false)
      (hrest : WellNested rest) : WellNested (char :: rest)
  | pair {opener closer : Char} {inner rest : List Char} (hpair : closer? opener = some closer)
      (hinner : WellNested inner) (hrest : WellNested rest) :
      WellNested (opener :: (inner ++ closer :: rest))

/-- Read a text with a stack of the closing brackets that are expected, innermost
first.  There is no result if another bracket is closed than the innermost one. -/
def scan (stack : List Char) : List Char → Option (List Char)
  | [] => some stack
  | char :: rest =>
    match closer? char with
    | some closer => scan (closer :: stack) rest
    | none =>
      if isCloser char then
        match stack with
        | [] => none
        | expected :: outer => if expected = char then scan outer rest else none
      else scan stack rest

theorem isCloser_of_closer? {opener closer : Char} (hpair : closer? opener = some closer) :
    isCloser closer = true := by
  unfold closer? at hpair
  split at hpair <;> cases hpair <;> rfl

theorem closer?_of_isCloser {char : Char} (hcloser : isCloser char = true) :
    closer? char = none := by
  simp only [isCloser, Bool.or_eq_true, beq_iff_eq] at hcloser
  obtain (rfl | rfl) | rfl := hcloser <;> rfl

section Scan

variable {stack : List Char}

theorem scan_opener {opener closer : Char} (hpair : closer? opener = some closer)
    (rest : List Char) : scan stack (opener :: rest) = scan (closer :: stack) rest := by
  simp [scan, hpair]

theorem scan_closer {char : Char} (hcloser : isCloser char = true) (rest : List Char) :
    scan (char :: stack) (char :: rest) = scan stack rest := by
  simp [scan, closer?_of_isCloser hcloser, hcloser]

theorem scan_plain {char : Char} (hplain : isBracket char = false) (rest : List Char) :
    scan stack (char :: rest) = scan stack rest := by
  simp only [isBracket, Bool.or_eq_false_iff, Option.isSome_eq_false_iff,
    Option.isNone_iff_eq_none] at hplain
  simp [scan, hplain]

theorem scan_append (first second : List Char) :
    scan stack (first ++ second) = (scan stack first).bind fun middle => scan middle second := by
  fun_induction scan stack first <;> simp_all [scan]

/-- A text without brackets leaves the stack as it is. -/
theorem scan_of_forall_plain {text : List Char} (hplain : ∀ char ∈ text, isBracket char = false) :
    scan stack text = some stack := by
  induction text with
  | nil => rfl
  | cons char rest ih =>
    obtain ⟨hchar, hrest⟩ := List.forall_mem_cons.1 hplain
    rw [scan_plain hchar, ih hrest]

/-- Only closing brackets come onto the stack. -/
theorem isCloser_of_scan {text result : List Char} (hscan : scan stack text = some result)
    (hstack : ∀ char ∈ stack, isCloser char = true) :
    ∀ char ∈ result, isCloser char = true := by
  fun_induction scan stack text with
  | case1 => simpa [← Option.some.inj hscan] using hstack
  | case2 stack char rest closer hpair ih =>
    exact ih hscan (List.forall_mem_cons.2 ⟨isCloser_of_closer? hpair, hstack⟩)
  | case3 => simp at hscan
  | case4 char rest hpair hcloser outer ih => exact ih hscan (List.forall_mem_cons.1 hstack).2
  | case5 => simp at hscan
  | case6 stack char rest hpair hcloser ih => exact ih hscan hstack

/-- Writing the expected brackets closes them all. -/
theorem scan_self (hstack : ∀ char ∈ stack, isCloser char = true) :
    scan stack stack = some [] := by
  induction stack with
  | nil => rfl
  | cons char stack ih =>
    obtain ⟨hchar, hrest⟩ := List.forall_mem_cons.1 hstack
    rw [scan_closer hchar, ih hrest]

end Scan

/-- A well-nested text leaves the stack as it is. -/
theorem WellNested.scan_eq {text : List Char} (htext : WellNested text) (stack : List Char) :
    scan stack text = some stack := by
  induction htext generalizing stack with
  | nil => rfl
  | plain hplain _ ih => rw [scan_plain hplain, ih]
  | pair hpair _ _ hinner hrest =>
    rw [scan_opener hpair, scan_append, hinner, Option.bind_some,
      scan_closer (isCloser_of_closer? hpair), hrest]

/-- Texts that close the brackets of a stack, with well-nested texts around them. -/
inductive Completes : List Char → List Char → Prop where
  | done {text : List Char} (htext : WellNested text) : Completes [] text
  | close {closer : Char} {stack inner rest : List Char} (hinner : WellNested inner)
      (hrest : Completes stack rest) : Completes (closer :: stack) (inner ++ closer :: rest)

namespace Completes

variable {stack text : List Char}

theorem plain {char : Char} (hplain : isBracket char = false) (htext : Completes stack text) :
    Completes stack (char :: text) := by
  cases htext with
  | done htext => exact .done (.plain hplain htext)
  | close hinner hrest => exact .close (.plain hplain hinner) hrest

theorem pair {opener closer : Char} (hpair : closer? opener = some closer) {inner : List Char}
    (hinner : WellNested inner) (htext : Completes stack text) :
    Completes stack (opener :: (inner ++ closer :: text)) := by
  cases htext with
  | done htext => exact .done (.pair hpair hinner htext)
  | @close outer _ _ _ hmore hrest =>
    have hnested := @Completes.close outer _ _ _ (.pair hpair hinner hmore) hrest
    simpa using hnested

end Completes

/-- A text that empties the stack closes its brackets. -/
theorem completes_of_scan {stack text : List Char} (hscan : scan stack text = some []) :
    Completes stack text := by
  fun_induction scan stack text with
  | case1 stack =>
    obtain rfl : stack = [] := Option.some.inj hscan
    exact .done .nil
  | case2 stack char rest closer hpair ih =>
    cases ih hscan with
    | close hinner hrest => exact hrest.pair hpair hinner
  | case3 => simp at hscan
  | case4 char rest hpair hcloser outer ih => exact .close .nil (ih hscan)
  | case5 => simp at hscan
  | case6 stack char rest hpair hcloser ih =>
    exact (ih hscan).plain (by simp [isBracket, hpair, hcloser])

/-- Reading a text with a stack decides whether it is well nested. -/
theorem wellNested_iff_scan (text : List Char) : WellNested text ↔ scan [] text = some [] := by
  constructor
  · intro htext
    exact htext.scan_eq []
  · intro hscan
    cases completes_of_scan hscan with
    | done htext => exact htext

/-- Well-nested texts one after the other are well nested. -/
theorem WellNested.append {first second : List Char} (hfirst : WellNested first)
    (hsecond : WellNested second) : WellNested (first ++ second) := by
  rw [wellNested_iff_scan, scan_append, hfirst.scan_eq, Option.bind_some, hsecond.scan_eq]

/-- A text in which only innermost brackets are closed is the start of a well-nested
one. -/
theorem exists_wellNested_append {text stack : List Char} (hscan : scan [] text = some stack) :
    ∃ rest, WellNested (text ++ rest) := by
  refine ⟨stack, ?_⟩
  rw [wellNested_iff_scan, scan_append, hscan, Option.bind_some]
  exact scan_self (isCloser_of_scan hscan (by simp))

end NescTree.Text
