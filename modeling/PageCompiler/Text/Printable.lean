import PageCompiler.Text.Identifier

/-!
# `PageCompiler.Text.Printable`: characters that can be shown

A character can be shown if it is assigned and leaves a mark on paper, or if it is the plain space.
Controls, format characters, other spaces, private characters and unassigned ones cannot. Word
characters and what continues an identifier can all be shown, so the table keeps the punctuation
and the symbols only.
-/

set_option autoImplicit false

namespace PageCompiler.Text

/-- The code points from 128 on that can be shown and belong to no identifier. -/
def symbolRuns : List Nat :=
  [161, 9, 1, 2, 1, 4, 2, 1, 1, 1, 1, 1, 2, 1, 3, 1, 23, 1, 31, 1, 458, 4, 12, 14, 5, 7, 1, 1, 1,
   17, 117, 1, 8, 1, 5, 2, 112, 1, 139, 1, 5, 2, 208, 6, 41, 2, 2, 3, 46, 1, 1, 1, 2, 1, 2, 1, 44,
   2, 17, 10, 11, 1, 1, 3, 74, 4, 102, 1, 9, 1, 10, 1, 19, 2, 1, 14, 232, 4, 4, 2, 48, 15, 31, 1,
   41, 1, 219, 2, 10, 1, 129, 2, 6, 2, 1, 1, 120, 1, 121, 2, 126, 1, 130, 8, 124, 1, 7, 1, 4, 1,
   202, 1, 41, 1, 122, 1, 74, 1, 15, 1, 10, 2, 165, 23, 2, 6, 20, 1, 1, 1, 1, 1, 1, 4, 71, 1, 56,
   8, 1, 6, 1, 13, 111, 6, 78, 2, 91, 1, 612, 9, 39, 10, 102, 1, 620, 2, 44, 2, 78, 3, 71, 2, 157,
   3, 1, 4, 36, 11, 309, 1, 3, 2, 152, 34, 30, 2, 128, 7, 1, 6, 16, 1, 155, 17, 9, 11, 125, 4, 59,
   5, 62, 2, 64, 8, 11, 1, 745, 1, 1, 3, 11, 3, 13, 3, 13, 3, 13, 2, 17, 24, 8, 15, 2, 19, 1, 10,
   27, 5, 11, 5, 17, 33, 28, 4, 1, 3, 27, 2, 1, 4, 1, 2, 10, 1, 1, 2, 6, 6, 1, 1, 1, 1, 1, 1, 16,
   2, 4, 5, 5, 4, 1, 1, 58, 2, 4, 663, 25, 11, 81, 78, 22, 630, 30, 992, 2, 32, 1, 105, 229, 6, 14,
   4, 1, 2, 112, 1, 143, 47, 1, 46, 34, 26, 1, 89, 12, 214, 26, 12, 5, 4, 3, 25, 15, 1, 5, 2, 5, 3,
   91, 2, 3, 1, 90, 1, 148, 2, 4, 10, 32, 36, 28, 31, 11, 30, 8, 1, 15, 32, 10, 39, 15, 320, 6592,
   64, 22160, 55, 55, 2, 269, 3, 96, 4, 10, 1, 115, 6, 8, 23, 9, 2, 103, 2, 157, 4, 10, 4, 58, 4,
   86, 2, 40, 3, 1, 1, 49, 2, 47, 1, 97, 13, 16, 2, 124, 4, 23, 3, 100, 2, 16, 2, 105, 1, 14, 2,
   127, 1, 20285, 1, 136, 17, 379, 18, 127, 1, 44, 4, 16, 10, 22, 3, 2, 24, 3, 3, 1, 19, 1, 4, 149,
   15, 10, 7, 26, 4, 1, 1, 26, 11, 122, 7, 1, 7, 13, 2, 258, 3, 52, 9, 57, 17, 2, 3, 1, 13, 3, 1,
   47, 45, 418, 1, 48, 1, 414, 1, 743, 1, 31, 2, 166, 1, 31, 1, 272, 9, 38, 1, 72, 1, 39, 7, 66, 7,
   89, 4, 784, 1, 167, 5, 44, 4, 189, 7, 109, 2, 1, 4, 126, 4, 48, 2, 79, 4, 4, 1, 13, 1, 1, 3, 88,
   6, 107, 1, 417, 5, 10, 2, 1, 1, 104, 1, 250, 23, 105, 3, 28, 13, 76, 1, 130, 4, 251, 1, 264, 3,
   155, 1, 92, 8, 83, 3, 1, 5, 414, 5, 42, 2, 645, 2, 220, 29, 13, 1, 1136, 5, 2940, 2, 14971, 2,
   133, 1, 65, 9, 4, 2, 849, 4, 327, 1, 19641, 1, 2, 1, 4784, 116, 60, 246, 10, 39, 2, 60, 5, 3,
   22, 2, 7, 30, 4, 61, 21, 66, 3, 1, 186, 87, 874, 1, 25, 1, 31, 1, 25, 1, 31, 1, 25, 1, 31, 1,
   25, 1, 31, 1, 25, 1, 60, 512, 55, 4, 50, 8, 1, 14, 1, 7, 1731, 1, 431, 1, 1630, 2, 844, 1, 3, 1,
   125, 1, 449, 2, 270, 44, 4, 100, 12, 15, 2, 15, 1, 15, 1, 37, 23, 161, 56, 29, 13, 44, 4, 9, 7,
   2, 14, 6, 154, 984, 5, 16, 3, 13, 3, 116, 12, 89, 7, 12, 4, 1, 15, 12, 4, 56, 8, 10, 6, 40, 8,
   30, 2, 2, 78, 340, 12, 14, 2, 5, 3, 5, 3, 7, 9, 29, 3, 11, 5, 6, 10, 10, 6, 8, 8, 7, 9, 147, 1,
   55]

/-- Characters that can be shown as they are. -/
def isPrintable (c : Char) : Bool :=
  if c.toNat < 128 then 0x20 ≤ c.toNat && c.toNat < 0x7f
  else isWord c || inRuns continuingRuns c.toNat || inRuns symbolRuns c.toNat

end PageCompiler.Text
