/-
Splitting a text in two.

A literal is taken apart at its first mark, and a mark belongs to neither part.  The lemmas say
when there is nothing to split at and what a split in front of a known mark gives, and that a
text is always in one of these two cases.
-/
namespace AmountField.Text

/-- The part in front of the first character of a kind and, if there is one, the part behind. -/
def splitFirst (kind : Char → Bool) : List Char → List Char × Option (List Char)
  | [] => ([], none)
  | c :: rest =>
    if kind c then ([], some rest)
    else
      let (front, back) := splitFirst kind rest
      (c :: front, back)

theorem splitFirst_of_forall {kind : Char → Bool} {cs : List Char}
    (h : ∀ c ∈ cs, kind c = false) : splitFirst kind cs = (cs, none) := by
  induction cs with
  | nil => rfl
  | cons c rest ih =>
    rw [splitFirst, h c (by simp), ih fun d hd => h d (by simp [hd])]
    rfl

theorem splitFirst_append {kind : Char → Bool} {front : List Char} {mark : Char}
    (h : ∀ c ∈ front, kind c = false) (hmark : kind mark = true) (back : List Char) :
    splitFirst kind (front ++ mark :: back) = (front, some back) := by
  induction front with
  | nil => simp [splitFirst, hmark]
  | cons c rest ih =>
    rw [List.cons_append, splitFirst, h c (by simp), ih fun d hd => h d (by simp [hd])]
    rfl

/-- A text has no such character, or is split at the first one. -/
theorem splitFirst_cases (kind : Char → Bool) (cs : List Char) :
    ((∀ c ∈ cs, kind c = false) ∧ splitFirst kind cs = (cs, none)) ∨
    ∃ front mark back, cs = front ++ mark :: back ∧ kind mark = true ∧
      (∀ c ∈ front, kind c = false) ∧ splitFirst kind cs = (front, some back) := by
  induction cs with
  | nil => exact Or.inl ⟨by simp, rfl⟩
  | cons c rest ih =>
    by_cases hc : kind c = true
    · exact Or.inr ⟨[], c, rest, rfl, hc, by simp, by simp [splitFirst, hc]⟩
    · rw [Bool.not_eq_true] at hc
      rcases ih with ⟨hall, -⟩ | ⟨front, mark, back, rfl, hmark, hfront, -⟩
      · have hall' : ∀ d ∈ c :: rest, kind d = false := by simpa [hc] using hall
        exact Or.inl ⟨hall', splitFirst_of_forall hall'⟩
      · have hfront' : ∀ d ∈ c :: front, kind d = false := by simpa [hc] using hfront
        exact Or.inr ⟨c :: front, mark, back, rfl, hmark, hfront',
          splitFirst_append hfront' hmark back⟩

/-- Takes one sign off the front of a text, and tells whether it was a minus. -/
def splitSign : List Char → Bool × List Char
  | '+' :: rest => (false, rest)
  | '-' :: rest => (true, rest)
  | rest => (false, rest)

end AmountField.Text
