import Mathlib.Data.List.Forall2
import StackScript.Proofs.Segment.Basic

/-!
# One segment in two places

A segment that is placed twice gives the same instructions twice, but for the targets of its jumps
and the places of its names. What is told about these is told once, for any relation between the
operands.
-/

namespace StackScript

/-- The same operation, with first operands that are related. -/
structure Instruction.Corresponds (R : Operand → Operand → Prop) (i j : Instruction) : Prop where
  op : i.op = j.op
  operand : Option.Rel R i.operand j.operand
  extra : i.extra = j.extra

theorem Instruction.Corresponds.imp {R S : Operand → Operand → Prop} (le : ∀ a b, R a b → S a b)
    {i j : Instruction} (h : i.Corresponds R j) : i.Corresponds S j := by
  obtain ⟨op, operand, extra⟩ := i
  obtain ⟨op', operand', extra'⟩ := j
  obtain ⟨same, related, rest⟩ := h
  refine ⟨same, ?_, rest⟩
  cases related with
  | some related => exact .some (le _ _ related)
  | none => exact .none

/-- The operand of a fixed instruction is neither a name nor a target. -/
theorem Instruction.rel_of_isFixed {R : Operand → Operand → Prop} {i : Instruction}
    (fixed : i.isFixed = true)
    (h : ∀ a : Operand, (∀ k, a ≠ .name k) → (∀ t, a ≠ .jump t) → R a a) :
    Option.Rel R i.operand i.operand := by
  cases operand : i.operand with
  | none => exact .none
  | some a =>
    refine .some (h a ?_ ?_)
    · rintro k rfl
      simp [Instruction.isFixed, operand] at fixed
    · rintro t rfl
      simp [Instruction.isFixed, operand] at fixed

namespace Segment

/-- The relation holds between the operands that the segment has in the two places. Jumps lead from
    the first to just behind the last instruction. -/
structure Relates (R : Operand → Operand → Prop) (s : Segment) (o n o' n' : Nat) : Prop where
  fixed : ∀ a : Operand, (∀ k, a ≠ .name k) → (∀ t, a ≠ .jump t) → R a a
  names : ∀ k text, s.names[k]? = some text → R (.name (n + k)) (.name (n' + k))
  targets : ∀ k, k ≤ s.size → R (.jump (o + k)) (.jump (o' + k))

variable {R : Operand → Operand → Prop} {s : Segment} {o n o' n' : Nat}

/-- A part of the segment begins some instructions and some names after it. -/
theorem Relates.part (h : s.Relates R o n o' n') (inner : Segment) (skipped : Nat)
    (before after : List String) (size : skipped + inner.size ≤ s.size)
    (names : s.names = before ++ inner.names ++ after) :
    inner.Relates R (o + skipped) (n + before.length) (o' + skipped) (n' + before.length) where
  fixed := h.fixed
  names k text found := by
    have inside : k < inner.names.length := (List.getElem?_eq_some_iff.mp found).1
    have whole : s.names[before.length + k]? = some text := by
      rw [names, List.append_assoc, List.getElem?_append_right (by omega), Nat.add_sub_cancel_left,
        List.getElem?_append_left inside, found]
    rw [Nat.add_assoc, Nat.add_assoc]
    exact h.names _ text whole
  targets k le := by
    rw [Nat.add_assoc, Nat.add_assoc]
    exact h.targets _ (by omega)

theorem Relates.jump (h : s.Relates R o n o' n') (op : Op) (k : Nat) (le : k ≤ s.size) :
    (Instruction.jumpTo op (o + k)).Corresponds R (.jumpTo op (o' + k)) :=
  ⟨rfl, .some (h.targets k le), rfl⟩

/-- The instructions of a segment in two places correspond one by one. -/
theorem place_corresponds (s : Segment) (h : s.Relates R o n o' n') :
    List.Forall₂ (Instruction.Corresponds R) (s.place o n) (s.place o' n') := by
  induction s generalizing o n o' n' with
  | plain i fixed => exact .cons ⟨rfl, Instruction.rel_of_isFixed fixed h.fixed, rfl⟩ .nil
  | named op text extra goesOn =>
    have name := h.names 0 text rfl
    exact .cons ⟨rfl, .some name, rfl⟩ .nil
  | unused texts => exact .nil
  | seq first second ih₁ ih₂ =>
    have part₁ := h.part first 0 [] second.names (by simp [size]) rfl
    have part₂ := h.part second first.size first.names [] (by simp [size]) (by simp [names])
    exact List.rel_append (ih₁ part₁) (ih₂ part₂)
  | skip operator body ih =>
    have inner := h.part body 1 [] [] (by simp [size]; omega) (by simp [names])
    have toEnd := h.jump operator.op (1 + body.size) (by simp [size]; omega)
    simp only [← Nat.add_assoc] at toEnd
    exact .cons toEnd (ih inner)
  | branch keeps consequent alternate ih₁ ih₂ =>
    have part₁ := h.part consequent 1 [] alternate.names (by simp [size]; omega) rfl
    have part₂ := h.part alternate (1 + consequent.size + 1) consequent.names []
      (by simp [size]; omega) (by simp [names])
    have toAlternate := h.jump (branchOp keeps) (1 + consequent.size + 1) (by simp [size]; omega)
    have toEnd := h.jump .jump (1 + consequent.size + 1 + alternate.size) (by simp [size]; omega)
    simp only [← Nat.add_assoc] at part₂ toAlternate toEnd
    exact List.rel_append (.cons toAlternate (ih₁ part₁)) (.cons toEnd (ih₂ part₂))
  | cycle test body ih₁ ih₂ =>
    have part₁ := h.part test 0 [] body.names (by simp [size]; omega) rfl
    have part₂ :=
      h.part body (test.size + 1) test.names [] (by simp [size]; omega) (by simp [names])
    have toEnd := h.jump .jumpIfFalse (test.size + 1 + body.size + 1) (by simp [size]; omega)
    have back := h.jump .jump 0 (Nat.zero_le _)
    simp only [← Nat.add_assoc] at part₂ toEnd
    exact List.rel_append (List.rel_append (ih₁ part₁) (.cons toEnd (ih₂ part₂))) (.cons back .nil)
  | forever body ih =>
    have inner := h.part body 0 [] [] (by simp [size]) (by simp [names])
    have back := h.jump .jump 0 (Nat.zero_le _)
    exact List.rel_append (ih inner) (.cons back .nil)

/-- Each name that an instruction of the segment refers to is one of the names of the segment. -/
theorem name_of_mem_place (s : Segment) {i : Instruction} (mem : i ∈ s.place o n) {k : Nat}
    (operand : i.operand = some (.name k)) : n ≤ k ∧ k < n + s.names.length := by
  let own (a _ : Operand) : Prop := ∀ k, a = .name k → n ≤ k ∧ k < n + s.names.length
  have related : s.Relates own o n o n := by
    refine ⟨?_, ?_, ?_⟩
    · exact fun a unnamed _ k name => absurd name (unnamed k)
    · intro k text found m name
      have inside : k < s.names.length := (List.getElem?_eq_some_iff.mp found).1
      cases name
      omega
    · intro k _ m name
      cases name
  have each := List.forall₂_same.mp (s.place_corresponds related) i mem
  have own_operand := each.operand
  rw [operand] at own_operand
  cases own_operand with
  | some own => exact own k rfl

end Segment

end StackScript
