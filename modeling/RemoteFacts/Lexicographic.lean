/-!
# Lists in the order of a dictionary

* `lexLt` : lists in the order of their first difference, a list before its extensions;
* `StrictTotal` : the laws of a strict total order, which `lexLt` inherits from the order of the items
  (`StrictTotal.lexLt`).
-/

namespace RemoteFacts

variable {α : Type}

/-- Whether one list comes before another one in the order of their first difference. -/
def lexLt [DecidableEq α] (lt : α → α → Bool) : List α → List α → Bool
  | _, [] => false
  | [], _ :: _ => true
  | a :: as, b :: bs => if a = b then lexLt lt as bs else lt a b

/-- A relation by which of two different items exactly one comes first. -/
structure StrictTotal (lt : α → α → Bool) : Prop where
  irrefl (a : α) : lt a a = false
  trans {a b c : α} : lt a b = true → lt b c = true → lt a c = true
  total {a b : α} : a ≠ b → lt a b = true ∨ lt b a = true

namespace StrictTotal

theorem asymm {lt : α → α → Bool} (h : StrictTotal lt) {a b : α} (k : lt a b = true) : lt b a = false := by
  rw [← Bool.not_eq_true]
  intro hba
  simpa [h.irrefl] using h.trans k hba

/-- What is not after an item, which is not after a third one, is not after the third one. -/
theorem not_trans {lt : α → α → Bool} (h : StrictTotal lt) {a b c : α} (hab : lt b a = false)
    (hbc : lt c b = false) : lt c a = false := by
  rw [← Bool.not_eq_true] at hab hbc ⊢
  intro hca
  by_cases e : b = c
  · exact hab (e ▸ hca)
  · rcases h.total e with hlt | hgt
    · exact hab (h.trans hlt hca)
    · exact hbc hgt

theorem eq_of_not {lt : α → α → Bool} (h : StrictTotal lt) {a b : α} (hab : lt a b = false)
    (hba : lt b a = false) : a = b := by
  apply Classical.byContradiction
  intro hne
  rcases h.total hne with k | k
  · simp [hab] at k
  · simp [hba] at k

theorem lexLt [DecidableEq α] {lt : α → α → Bool} (h : StrictTotal lt) : StrictTotal (lexLt lt) where
  irrefl as := by
    induction as with
    | nil => rfl
    | cons a as ih => simp [RemoteFacts.lexLt, ih]
  trans {as bs cs} hab hbc := by
    induction as generalizing bs cs with
    | nil => cases bs <;> cases cs <;> simp_all [RemoteFacts.lexLt]
    | cons a as ih =>
      match bs, cs with
      | [], _ => simp [RemoteFacts.lexLt] at hab
      | _ :: _, [] => simp [RemoteFacts.lexLt] at hbc
      | b :: bs, c :: cs =>
        rw [RemoteFacts.lexLt] at hab hbc ⊢
        by_cases e : a = b
        · subst e
          rw [if_pos rfl] at hab
          split at hbc
          · next e' => rw [if_pos e']; exact ih hab hbc
          · next e' => rw [if_neg e']; exact hbc
        · rw [if_neg e] at hab
          split at hbc
          · next e' => rw [← e', if_neg e]; exact hab
          · have hac := h.trans hab hbc
            rw [if_neg (fun e' => by simp [e', h.irrefl] at hac)]; exact hac
  total {as bs} hne := by
    induction as generalizing bs with
    | nil =>
      cases bs with
      | nil => exact absurd rfl hne
      | cons => simp [RemoteFacts.lexLt]
    | cons a as ih =>
      cases bs with
      | nil => simp [RemoteFacts.lexLt]
      | cons b bs =>
        by_cases e : a = b
        · subst e
          simpa [RemoteFacts.lexLt] using ih (fun e' => hne (by rw [e']))
        · simpa [RemoteFacts.lexLt, e, Ne.symm e] using h.total e

end StrictTotal

/-- Numbers by size are strictly and totally ordered. -/
theorem strictTotal_nat : StrictTotal fun m n : Nat => decide (m < n) where
  irrefl := by simp
  trans h k := by simp only [decide_eq_true_eq] at h k ⊢; exact Nat.lt_trans h k
  total h := by simpa using Nat.lt_or_gt_of_ne h

/-- An order of items by a key that tells them apart. -/
theorem StrictTotal.ofKey {β : Type} {lt : β → β → Bool} (h : StrictTotal lt) {key : α → β}
    (inj : ∀ a b, key a = key b → a = b) : StrictTotal fun a b => lt (key a) (key b) where
  irrefl a := h.irrefl (key a)
  trans := h.trans
  total hne := h.total fun e => hne (inj _ _ e)

end RemoteFacts
