/-
Counts of lines, added up.

Counts are added place by place, so they obey the laws of numbers.  While a text is gone through,
a line adds to the counts something that depends only on the line and the region in which it
starts, and never on the counts so far.  So the counts of some lines can be taken apart: what was
there before, and what the lines would count from nothing.
-/
import Mathlib.Algebra.Group.Defs
import PackageAudit.Source.LineCounts

namespace PackageAudit

namespace LineCounts

attribute [ext] LineCounts

instance : Zero LineCounts := ⟨{}⟩

@[simp] theorem code_add (a b : LineCounts) : (a + b).code = a.code + b.code := rfl

@[simp] theorem comment_add (a b : LineCounts) : (a + b).comment = a.comment + b.comment := rfl

@[simp] theorem blank_add (a b : LineCounts) : (a + b).blank = a.blank + b.blank := rfl

@[simp] theorem total_add (a b : LineCounts) : (a + b).total = a.total + b.total := rfl

@[simp] theorem code_zero : (0 : LineCounts).code = 0 := rfl

@[simp] theorem comment_zero : (0 : LineCounts).comment = 0 := rfl

@[simp] theorem blank_zero : (0 : LineCounts).blank = 0 := rfl

@[simp] theorem total_zero : (0 : LineCounts).total = 0 := rfl

instance : AddCancelCommMonoid LineCounts where
  add_assoc a b c := by ext <;> simp [Nat.add_assoc]
  zero_add a := by ext <;> simp
  add_zero a := by ext <;> simp
  add_comm a b := by ext <;> simp [Nat.add_comm]
  add_left_cancel a b c h := by
    simp only [LineCounts.ext_iff, code_add, comment_add, blank_add, total_add,
      Nat.add_left_cancel_iff] at h
    exact LineCounts.ext h.1 h.2.1 h.2.2.1 h.2.2.2
  nsmul := nsmulRec

theorem add_eq_zero_iff {a b : LineCounts} : a + b = 0 ↔ a = 0 ∧ b = 0 := by
  simp only [LineCounts.ext_iff, code_add, comment_add, blank_add, total_add, code_zero,
    comment_zero, blank_zero, total_zero]
  omega

/-- Counts in which every line is there, and none of them twice as one thing. -/
def IsBounded (counts : LineCounts) : Prop :=
  max counts.code counts.comment + counts.blank ≤ counts.total
    ∧ counts.total ≤ counts.code + counts.comment + counts.blank

theorem IsBounded.add {a b : LineCounts} (ha : a.IsBounded) (hb : b.IsBounded) :
    (a + b).IsBounded := by
  unfold IsBounded at *
  simp only [code_add, comment_add, blank_add, total_add]
  omega

end LineCounts

namespace Source

variable {language : Language}

theorem countLine_add (counts : LineCounts) (region : Region) (line : List Char) :
    countLine language (counts, region) line
      = (counts + (countLine language (0, region) line).1, (countLine language (0, region) line).2)
        := by
  unfold countLine
  dsimp only
  split
  · ext <;> simp
  · ext <;> simp

theorem foldl_countLine_add (lines : List (List Char)) (counts : LineCounts) (region : Region) :
    lines.foldl (countLine language) (counts, region)
      = (counts + (lines.foldl (countLine language) (0, region)).1,
        (lines.foldl (countLine language) (0, region)).2) := by
  induction lines generalizing counts region with
  | nil => rw [List.foldl_nil, List.foldl_nil, add_zero]
  | cons line lines ih =>
      rw [List.foldl_cons, List.foldl_cons, countLine_add, ih, ih (countLine language (0, region) line).1,
        add_assoc]

end Source

end PackageAudit
