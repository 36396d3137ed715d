import NescTree.Notation.Word

/-!
# Names of kinds as words

Every name of a kind is a word that is no constant, and no two kinds share a name.
So a kind is recovered from its name wherever the name stands in a text.
-/

namespace NescTree

open Notation

def isNameWord (word : List Char) : Bool :=
  isBareWord word && (looksConstant word).toOption == some false

theorem Keyword.isNameWord_name (word : Keyword) : isNameWord word.name.toList = true := by
  cases word <;> (rw [Keyword.name, String.toList_ofList]; decide +kernel)

theorem Aggregate.isNameWord_name (tag : Aggregate) : isNameWord tag.name.toList = true := by
  cases tag <;> (rw [Aggregate.name, String.toList_ofList]; decide +kernel)

theorem BinaryOperator.isNameWord_name (operator : BinaryOperator) :
    isNameWord operator.name.toList = true := by
  cases operator <;>
    (rw [BinaryOperator.name, String.toList_ofList]; decide +kernel)

theorem UnaryOperator.isNameWord_name (operator : UnaryOperator) :
    isNameWord operator.name.toList = true := by
  cases operator <;>
    (rw [UnaryOperator.name, String.toList_ofList]; decide +kernel)

theorem ForClause.isNameWord_name (clause : ForClause) : isNameWord clause.name.toList = true := by
  cases clause <;> (rw [ForClause.name, String.toList_ofList]; decide +kernel)

namespace Kind

theorem isNameWord_name (kind : Kind) : isNameWord kind.name.toList = true := by
  cases kind with
  | keyword word => exact word.isNameWord_name
  | aggregate tag => exact tag.isNameWord_name
  | binary operator => exact operator.isNameWord_name
  | unary operator => exact operator.isNameWord_name
  | forClause clause => exact clause.isNameWord_name
  | _ => rw [Kind.name, String.toList_ofList]; decide +kernel

theorem isBareWord_name (kind : Kind) : isBareWord kind.name.toList = true := by
  have hname := kind.isNameWord_name
  rw [isNameWord, Bool.and_eq_true] at hname
  exact hname.1

theorem looksConstant_name (kind : Kind) : looksConstant kind.name.toList = .ok false := by
  have hname := kind.isNameWord_name
  rw [isNameWord, Bool.and_eq_true, beq_iff_eq] at hname
  cases hlooks : looksConstant kind.name.toList with
  | error fault => simp [hlooks, Except.toOption] at hname
  | ok constant =>
    rw [hlooks] at hname
    simpa [Except.toOption] using hname.2

theorem mem_all (kind : Kind) : kind ∈ Kind.all := by
  cases kind with
  | keyword word => simp [Kind.all, Keyword.mem_all]
  | aggregate tag => simp [Kind.all, Aggregate.mem_all]
  | binary operator => simp [Kind.all, BinaryOperator.mem_all]
  | unary operator => simp [Kind.all, UnaryOperator.mem_all]
  | forClause clause => simp [Kind.all, ForClause.mem_all]
  | _ => decide +kernel

/-- A kind is found by its name. -/
@[simp]
theorem ofName?_name (kind : Kind) : ofName? kind.name = some kind := by
  have hall : ∀ member ∈ Kind.all, ofName? member.name = some member := by decide +kernel
  exact hall kind kind.mem_all

theorem name_of_ofName? {word : String} {kind : Kind} (hname : ofName? word = some kind) :
    kind.name = word := by
  simpa using List.find?_some hname

/-- A word that looks like a constant names no kind. -/
theorem ofName?_eq_none_of_looksConstant {word : String}
    (hconstant : looksConstant word.toList = .ok true) : ofName? word = none := by
  cases hname : ofName? word with
  | none => rfl
  | some kind =>
    have hplain := kind.looksConstant_name
    rw [name_of_ofName? hname, hconstant] at hplain
    simp at hplain

end Kind

end NescTree
