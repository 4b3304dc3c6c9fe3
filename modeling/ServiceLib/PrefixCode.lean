import Mathlib

/-!
# Prefix codes

A text is written letter by letter, each letter as a word. It can be read back if no word is empty
and none starts the word of another letter.
-/

namespace ServiceLib

variable {α β : Type}

structure PrefixCode (code : α → List β) : Prop where
  ne_nil : ∀ a, code a ≠ []
  eq_of_prefix : ∀ {a b}, code a <+: code b → a = b

theorem PrefixCode.eq_of_append {code : α → List β} (h : PrefixCode code) {a b : α}
    {l m : List β} (he : code a ++ l = code b ++ m) : a = b ∧ l = m := by
  have hab : a = b := by
    have ha : code a <+: code b ++ m := he ▸ List.prefix_append _ _
    rcases List.prefix_or_prefix_of_prefix ha (List.prefix_append _ _) with hp | hp
    · exact h.eq_of_prefix hp
    · exact (h.eq_of_prefix hp).symm
  subst hab
  exact ⟨rfl, List.append_cancel_left he⟩

/-- **Texts can be read back.** -/
theorem PrefixCode.flatMap_injective {code : α → List β} (h : PrefixCode code) :
    Function.Injective (List.flatMap code) := by
  intro as
  induction as with
  | nil =>
    intro bs he
    cases bs with
    | nil => rfl
    | cons b bs => simp [h.ne_nil b] at he
  | cons a as ih =>
    intro bs he
    cases bs with
    | nil => simp [h.ne_nil a] at he
    | cons b bs =>
      rw [List.flatMap_cons, List.flatMap_cons] at he
      obtain ⟨rfl, htail⟩ := h.eq_of_append he
      rw [ih htail]

end ServiceLib
