import NescTree.Proofs.Notation.Quoting

/-!
# The quote that closes a string

A quote closes a string if the backslashes right before it come in pairs.  Cutting a
string off a text steps over characters, and over a backslash together with what
follows it.  Both steps leave the number of backslashes before a later quote even or
odd as it was, so the cut is made after the first quote that closes.
-/

namespace NescTree.Notation

def trailingBackslashes (text : List Char) : Nat :=
  (text.reverse.takeWhile (· == '\\')).length

/-- Whether a character stands at an index with no unpaired backslash before it. -/
def BareAt (text : List Char) (index : Nat) (char : Char) : Prop :=
  text[index]? = some char ∧ trailingBackslashes (text.take index) % 2 = 0

def ClosesAt (text : List Char) (index : Nat) : Prop :=
  text[index]? = some '"' ∧ trailingBackslashes (text.take index) % 2 = 0

/-- Whether the quote at an index is the first one that closes. -/
def ClosesFirstAt (text : List Char) (index : Nat) : Prop :=
  ClosesAt text index ∧ ∀ earlier, earlier < index → ¬ ClosesAt text earlier

theorem trailingBackslashes_append (first second : List Char) :
    trailingBackslashes (first ++ second) =
      if trailingBackslashes second = second.length then
        second.length + trailingBackslashes first
      else trailingBackslashes second := by
  by_cases hall : trailingBackslashes second = second.length
  · rw [if_pos hall]
    rw [trailingBackslashes] at hall ⊢
    rw [List.reverse_append, List.takeWhile_append, if_pos (by rw [hall, List.length_reverse]),
      List.length_append, List.length_reverse, trailingBackslashes]
  · rw [if_neg hall]
    rw [trailingBackslashes] at hall
    rw [trailingBackslashes, List.reverse_append, List.takeWhile_append,
      if_neg (by rwa [List.length_reverse]), trailingBackslashes]

theorem trailingBackslashes_cons_of_ne {char : Char} (hbackslash : char ≠ '\\')
    (text : List Char) : trailingBackslashes (char :: text) = trailingBackslashes text := by
  have hchar : trailingBackslashes [char] = 0 := by
    simp [trailingBackslashes, hbackslash]
  have happend := trailingBackslashes_append [char] text
  rw [List.singleton_append, hchar] at happend
  split at happend <;> omega

/-- A backslash and what follows it leave the number of backslashes at the end of a
text even or odd as it was. -/
theorem trailingBackslashes_pair (char : Char) (text : List Char) :
    trailingBackslashes ('\\' :: char :: text) % 2 = trailingBackslashes text % 2 := by
  have hpair : trailingBackslashes ['\\', char] % 2 = 0 := by
    by_cases hbackslash : char = '\\' <;> simp [trailingBackslashes, hbackslash]
  have happend := trailingBackslashes_append ['\\', char] text
  rw [List.cons_append, List.singleton_append] at happend
  split at happend <;> omega

theorem not_bareAt_nil (index : Nat) (char : Char) : ¬ BareAt [] index char := by
  simp [BareAt]

theorem bareAt_zero_iff (first : Char) (rest : List Char) (char : Char) :
    BareAt (first :: rest) 0 char ↔ first = char := by
  simp [BareAt, trailingBackslashes]

theorem bareAt_succ_iff {first : Char} (hbackslash : first ≠ '\\') (rest : List Char)
    (index : Nat) (char : Char) :
    BareAt (first :: rest) (index + 1) char ↔ BareAt rest index char := by
  rw [BareAt, BareAt, List.take_succ_cons, List.getElem?_cons_succ,
    trailingBackslashes_cons_of_ne hbackslash]

theorem bareAt_pair_iff (second : Char) (rest : List Char) (index : Nat) (char : Char) :
    BareAt ('\\' :: second :: rest) (index + 2) char ↔ BareAt rest index char := by
  rw [BareAt, BareAt, List.take_succ_cons, List.take_succ_cons, List.getElem?_cons_succ,
    List.getElem?_cons_succ, trailingBackslashes_pair]

/-- After a backslash and what follows it, a character other than a backslash stands bare
only where it does in the rest. -/
theorem not_bareAt_pair {char : Char} (hchar : char ≠ '\\') (second : Char) (rest : List Char)
    (index : Nat) (hrest : ∀ inner, index = inner + 2 → ¬ BareAt rest inner char) :
    ¬ BareAt ('\\' :: second :: rest) index char := by
  cases index with
  | zero => simpa [bareAt_zero_iff] using hchar.symm
  | succ index =>
    cases index with
    | zero =>
      rintro ⟨-, heven⟩
      simp [trailingBackslashes] at heven
    | succ index =>
      rw [bareAt_pair_iff]
      exact hrest index rfl

theorem closesAt_zero_iff (char : Char) (rest : List Char) :
    ClosesAt (char :: rest) 0 ↔ char = '"' :=
  bareAt_zero_iff char rest '"'

theorem closesAt_succ_iff {char : Char} (hbackslash : char ≠ '\\') (rest : List Char)
    (index : Nat) : ClosesAt (char :: rest) (index + 1) ↔ ClosesAt rest index :=
  bareAt_succ_iff hbackslash rest index '"'

theorem closesAt_pair_iff (char : Char) (rest : List Char) (index : Nat) :
    ClosesAt ('\\' :: char :: rest) (index + 2) ↔ ClosesAt rest index :=
  bareAt_pair_iff char rest index '"'

/-- After a backslash and what follows it, a quote closes only as it does in the rest. -/
theorem not_closesAt_pair (char : Char) (rest : List Char) (index : Nat)
    (hrest : ∀ inner, index = inner + 2 → ¬ ClosesAt rest inner) :
    ¬ ClosesAt ('\\' :: char :: rest) index :=
  not_bareAt_pair (by decide) char rest index hrest

theorem not_closesAt_nil (index : Nat) : ¬ ClosesAt [] index :=
  not_bareAt_nil index '"'

/-- A string is cut off after the first quote that closes it. -/
theorem closesFirstAt_of_cutString {text body remaining : List Char}
    (hcut : cutString text = some (body, remaining)) :
    ∃ index, body.length = index + 1 ∧ ClosesFirstAt text index := by
  fun_induction cutString text generalizing body with
  | case1 => simp at hcut
  | case2 => simp at hcut
  | case3 char rest ih =>
    obtain ⟨⟨front, back⟩, hfront, heq⟩ := Option.map_eq_some_iff.1 hcut
    obtain ⟨rfl, rfl⟩ := Prod.mk.inj heq
    obtain ⟨index, hlength, hcloses, hearlier⟩ := ih hfront
    refine ⟨index + 2, by simp [hlength], (closesAt_pair_iff char rest index).2 hcloses, ?_⟩
    intro earlier hlt
    apply not_closesAt_pair char rest earlier
    intro inner hinner
    exact hearlier inner (by omega)
  | case4 char rest _ _ hquote =>
    obtain ⟨rfl, rfl⟩ := Prod.mk.inj (Option.some.inj hcut)
    exact ⟨0, rfl, (closesAt_zero_iff char rest).2 (by simpa using hquote), by simp⟩
  | case5 char rest hlast hmore hquote ih =>
    obtain ⟨⟨front, back⟩, hfront, heq⟩ := Option.map_eq_some_iff.1 hcut
    obtain ⟨rfl, rfl⟩ := Prod.mk.inj heq
    have hbackslash := ne_backslash hlast hmore
    obtain ⟨index, hlength, hcloses, hearlier⟩ := ih hfront
    refine ⟨index + 1, by simp [hlength], (closesAt_succ_iff hbackslash rest index).2 hcloses, ?_⟩
    intro earlier hlt
    cases earlier with
    | zero => simpa [closesAt_zero_iff] using hquote
    | succ earlier =>
      rw [closesAt_succ_iff hbackslash]
      exact hearlier earlier (by omega)

/-- A text from which no string can be cut off has no quote that closes. -/
theorem not_closesAt_of_cutString {text : List Char} (hcut : cutString text = none)
    (index : Nat) : ¬ ClosesAt text index := by
  fun_induction cutString text generalizing index with
  | case1 => exact not_closesAt_nil index
  | case2 =>
    cases index with
    | zero => simp [closesAt_zero_iff]
    | succ index => simp [ClosesAt]
  | case3 char rest ih =>
    apply not_closesAt_pair char rest index
    intro inner hinner
    exact ih (Option.map_eq_none_iff.1 hcut) inner
  | case4 => simp at hcut
  | case5 char rest hlast hmore hquote ih =>
    have hbackslash := ne_backslash hlast hmore
    cases index with
    | zero => simpa [closesAt_zero_iff] using hquote
    | succ index =>
      rw [closesAt_succ_iff hbackslash]
      exact ih (Option.map_eq_none_iff.1 hcut) index

theorem cutString_eq_none_iff {text : List Char} :
    cutString text = none ↔ ∀ index, ¬ ClosesAt text index := by
  constructor
  · exact not_closesAt_of_cutString
  · intro hopen
    cases hcut : cutString text with
    | none => rfl
    | some cut =>
      obtain ⟨index, -, hcloses, -⟩ := closesFirstAt_of_cutString hcut
      exact absurd hcloses (hopen index)

end NescTree.Notation
