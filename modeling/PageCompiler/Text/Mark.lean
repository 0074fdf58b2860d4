import PageCompiler.Text.Identifier

/-!
# `PageCompiler.Text.Mark`: characters of a version mark

The version behind a runtime marker is checked against a wider notion of word than the one the
scanners use. It takes in combining marks, connecting punctuation and joiners, and leaves out
numbers that are no digits, such as fractions. It also knows letters of later additions to the
character set.
-/

set_option autoImplicit false

namespace PageCompiler.Text

/-- The code points that count for a version mark but continue no identifier: enclosing marks,
circled letters, joiners, and letters and marks of later additions. -/
def markOnlyRuns : List Nat :=
  [890, 1, 269, 2, 1037, 1, 1115, 1, 474, 1, 3055, 1, 458, 2, 897, 2, 207, 4, 1, 3, 977, 52, 2373,
   1, 30784, 3, 344, 3, 12, 3, 21633, 6, 406, 2, 116, 1, 1, 1, 1, 1, 1, 1, 1, 1, 1, 1, 1, 1, 1, 1,
   1857, 52, 1868, 38, 3, 5, 1, 23, 316, 3, 55, 4, 831, 3, 318, 10, 1, 1, 2, 1, 1, 38, 1, 10, 1, 1,
   2, 1, 1, 4, 1, 8, 13, 2, 749, 20, 1244, 33, 15, 10, 774, 17, 1, 41, 3, 5, 13, 11, 5332, 1, 16,
   22, 10, 3995, 7429, 58, 3078, 45, 3, 10, 8069, 1, 9266, 1, 34, 1, 7066, 10, 4651, 6, 261, 62,
   33, 1, 1088, 42, 214, 43, 2869, 26, 6, 26, 6, 26, 50607, 1, 13494, 622, 9458, 4192]

/-- The code points from 128 on that continue an identifier but do not count for a version
mark. -/
def unmarkedRuns : List Nat :=
  [183, 1, 719, 1, 4065, 9, 1640, 1, 1853, 1, 21, 1]

/-- Characters of a version mark: wide word characters, the full stop and the hyphen. -/
def isMarkChar (c : Char) : Bool :=
  if c.toNat < 128 then isWord c || c == '.' || c == '-'
  else if continuesIdentifier c then !inRuns unmarkedRuns c.toNat
  else inRuns markOnlyRuns c.toNat

end PageCompiler.Text
