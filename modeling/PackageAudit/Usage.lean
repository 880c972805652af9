/-
Which declarations were of use.

Rules, allowed cycles and ignore entries are declared first and used later or never.  A
counter keeps the declared keys in order, each with the number of its uses.
-/
import PackageAudit.Ascending

namespace PackageAudit

/-- Declared keys with the number of their uses, as an ascending table. -/
structure UsageCounter (κ : Type) where
  counts : List (κ × Nat) := []
  deriving DecidableEq, Repr

namespace UsageCounter

variable {κ : Type} [Ord κ]

/-- Records a number of uses of a key, which is declared by it if it was not. -/
def recordMany (counter : UsageCounter κ) (key : κ) (n : Nat) : UsageCounter κ :=
  ⟨Ascending.alter key (fun old => old.getD 0 + n) counter.counts⟩

/-- Declares a key, with the uses that it has already. -/
def declare (counter : UsageCounter κ) (key : κ) : UsageCounter κ :=
  counter.recordMany key 0

/-- Records one use of a key. -/
def record (counter : UsageCounter κ) (key : κ) : UsageCounter κ :=
  counter.recordMany key 1

/-- How often a key was used. -/
def count (counter : UsageCounter κ) (key : κ) : Nat :=
  (Ascending.find? key counter.counts).getD 0

/-- The declared keys that were never used, in order. -/
def unused (counter : UsageCounter κ) : List κ :=
  (counter.counts.filter fun (_, n) => n == 0).map Prod.fst

end UsageCounter

end PackageAudit
