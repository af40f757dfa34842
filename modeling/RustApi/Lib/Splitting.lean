import Mathlib.Data.List.Forall2
import Mathlib.Data.List.Basic
import Mathlib.Tactic.Common

/-!
# Texts compared piece by piece

`List.splitOn` cuts a text at a separator, and a relation that compares two texts piece by piece is
`List.Forall₂ R` of their lists of pieces.  `splitOn_induction` is the induction over the pieces.

`forall₂_splitOn_iff` is the rule for relations that are given otherwise: one that can be read off from
left to right, first a piece and then a separator, compares piece by piece.  Pieces may be asked to
have a property `P`; the rule then holds of the texts that are made of such pieces.
-/

namespace RustStd

variable {α : Type*} [DecidableEq α] {sep : α}

/-- Induction over the pieces between separators. -/
theorem splitOn_induction (sep : α) {motive : List α → Prop} (last : ∀ p, sep ∉ p → motive p)
    (cons : ∀ p q, sep ∉ p → motive q → motive (p ++ sep :: q)) (l : List α) : motive l := by
  induction hn : l.length using Nat.strongRecOn generalizing l with
  | _ n ih =>
      by_cases h : sep ∈ l
      · obtain ⟨p, q, rfl, hp⟩ := List.eq_append_cons_of_mem h
        refine cons p q hp (ih q.length ?_ q rfl)
        rw [← hn, List.length_append, List.length_cons]
        omega
      · exact last l h

/-- No piece holds a separator. -/
theorem notMem_of_mem_splitOn {l p : List α} (h : p ∈ l.splitOn sep) : sep ∉ p := by
  induction l using splitOn_induction sep with
  | last l hl =>
      rw [List.splitOn_eq_singleton hl, List.mem_singleton] at h
      rw [h]
      exact hl
  | cons q l hq ih =>
      rw [List.splitOn_append_cons_self_of_not_mem hq, List.mem_cons] at h
      rcases h with rfl | h
      · exact hq
      · exact ih h

section Rules

variable {R : List α → List α → Prop}

/-- A text without separator has one piece, itself. -/
theorem forall₂_splitOn_last {p l : List α} (hp : sep ∉ p) :
    List.Forall₂ R (p.splitOn sep) (l.splitOn sep) ↔ sep ∉ l ∧ R p l := by
  rw [List.splitOn_eq_singleton hp]
  by_cases hl : sep ∈ l
  · obtain ⟨s, t, rfl, hs⟩ := List.eq_append_cons_of_mem hl
    rw [List.splitOn_append_cons_self_of_not_mem hs]
    refine iff_of_false ?_ fun h => h.1 hl
    intro h
    rw [List.forall₂_cons, List.forall₂_nil_left_iff] at h
    exact List.splitOn_ne_nil sep t h.2
  · rw [List.splitOn_eq_singleton hl, List.forall₂_cons]
    simp [hl]

/-- The first piece and the rest. -/
theorem forall₂_splitOn_cons {p q l : List α} (hp : sep ∉ p) :
    List.Forall₂ R ((p ++ sep :: q).splitOn sep) (l.splitOn sep) ↔
      ∃ s t, l = s ++ sep :: t ∧ sep ∉ s ∧ R p s ∧
        List.Forall₂ R (q.splitOn sep) (t.splitOn sep) := by
  rw [List.splitOn_append_cons_self_of_not_mem hp]
  constructor
  · intro h
    by_cases hl : sep ∈ l
    · obtain ⟨s, t, rfl, hs⟩ := List.eq_append_cons_of_mem hl
      rw [List.splitOn_append_cons_self_of_not_mem hs, List.forall₂_cons] at h
      exact ⟨s, t, rfl, hs, h.1, h.2⟩
    · rw [List.splitOn_eq_singleton hl, List.forall₂_cons, List.forall₂_nil_right_iff] at h
      exact absurd h.2 (List.splitOn_ne_nil sep q)
  · intro h
    obtain ⟨s, t, rfl, hs, hps, hqt⟩ := h
    rw [List.splitOn_append_cons_self_of_not_mem hs, List.forall₂_cons]
    exact ⟨hps, hqt⟩

/-- **A relation that is read off from left to right, a piece and then a separator, compares piece by
piece.** -/
theorem forall₂_splitOn_iff {P : List α → Prop} {L : List α → List α → Prop}
    (nil : ∀ l, L [] l ↔ l = [])
    (separator : ∀ q l, L (sep :: q) l ↔ ∃ t, l = sep :: t ∧ L q t)
    (piece : ∀ p q l, sep ∉ p → P p → q = [] ∨ q.head? = some sep →
      (L (p ++ q) l ↔ ∃ s t, l = s ++ t ∧ R p s ∧ L q t))
    (notMem : ∀ p s, sep ∉ p → P p → R p s → sep ∉ s) {text : List α}
    (htext : ∀ p ∈ text.splitOn sep, P p) (l : List α) :
    L text l ↔ List.Forall₂ R (text.splitOn sep) (l.splitOn sep) := by
  induction text using splitOn_induction sep generalizing l with
  | last p hp =>
      rw [List.splitOn_eq_singleton hp] at htext
      have hP := htext p (List.mem_singleton_self p)
      have hread := piece p [] l hp hP (.inl rfl)
      rw [List.append_nil] at hread
      rw [forall₂_splitOn_last hp, hread]
      simp only [nil]
      constructor
      · intro h
        obtain ⟨s, t, rfl, hs, rfl⟩ := h
        rw [List.append_nil]
        exact ⟨notMem p s hp hP hs, hs⟩
      · intro h
        exact ⟨l, [], (List.append_nil l).symm, h.2, rfl⟩
  | cons p q hp ih =>
      rw [List.splitOn_append_cons_self_of_not_mem hp, List.forall_mem_cons] at htext
      rw [forall₂_splitOn_cons hp, piece p (sep :: q) l hp htext.1 (.inr rfl)]
      simp only [separator]
      constructor
      · intro h
        obtain ⟨s, t, rfl, hs, t', rfl, ht⟩ := h
        exact ⟨s, t', rfl, notMem p s hp htext.1 hs, hs, (ih htext.2 t').mp ht⟩
      · intro h
        obtain ⟨s, t, rfl, -, hs, ht⟩ := h
        exact ⟨s, sep :: t, rfl, hs, t, rfl, (ih htext.2 t).mpr ht⟩

end Rules

end RustStd
