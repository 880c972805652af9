/-
Numbers as text, in the two forms that messages need: plain decimal, and hexadecimal
with a fixed least width.
-/
namespace PackageAudit.Text

/-- A natural number in decimal. -/
def decimal (n : Nat) : String := String.ofList (Nat.toDigits 10 n)

/-- Fills a list of characters on the left up to a width. -/
def padLeft (width : Nat) (fill : Char) (digits : List Char) : List Char :=
  List.replicate (width - digits.length) fill ++ digits

/-- A natural number in lower-case hexadecimal, with at least `width` digits. -/
def hexLower (width : Nat) (n : Nat) : String :=
  String.ofList (padLeft width '0' (Nat.toDigits 16 n))

/-- A natural number in upper-case hexadecimal, with at least `width` digits. -/
def hexUpper (width : Nat) (n : Nat) : String :=
  String.ofList (padLeft width '0' ((Nat.toDigits 16 n).map Char.toUpper))

end PackageAudit.Text
