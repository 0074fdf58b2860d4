import PageCompiler.Text.Identifier
import PageCompiler.Text.Letter

/-!
# `PageCompiler.Address.LabelTable`: characters of host names

A host name is a row of labels. In a label stand letters in lower case, digits, marks and the
hyphen, except for letters that are only another form of other letters. The tables keep what the
notion of an identifier does not tell: which of its characters a label cannot have, the direction
in which a character is written, and how it joins its neighbours.
-/

set_option autoImplicit false

namespace PageCompiler.Address

open Text

/-- The code points in lower case that continue an identifier but stand in no label. -/
def otherFormRuns : List Nat :=
  [170, 1, 10, 1, 1, 1, 2, 1, 120, 1, 12, 1, 8, 1, 53, 1, 70, 1, 2, 1, 2, 1, 38, 1, 188, 9, 39, 5,
   91, 2, 1, 3, 9, 1, 36, 1, 18, 1, 72, 7, 25, 3, 2, 1, 401, 1, 184, 1, 31, 10, 11, 4, 119, 10,
   256, 1, 349, 8, 124, 2, 1, 1, 83, 1, 2, 1, 34, 3, 2, 1, 253, 2, 725, 1, 127, 1, 40, 2, 101, 1,
   9, 1, 4, 1, 4, 1, 4, 1, 12, 1, 9, 1, 1, 5, 7, 1, 17, 1, 9, 1, 4, 1, 4, 1, 4, 1, 12, 1, 322, 1,
   3, 256, 361, 9, 134, 6, 752, 3, 195, 2, 85, 3, 1, 1, 458, 1, 677, 9, 163, 3, 1, 11, 1, 18, 1,
   28, 13, 1, 34, 37, 218, 2, 213, 1, 1, 1, 1, 1, 1, 1, 1, 1, 1, 1, 1, 1, 2, 8, 8, 8, 8, 8, 10, 3,
   2, 1, 6, 1, 3, 3, 2, 1, 11, 1, 15, 1, 14, 3, 2, 1, 71, 2, 19, 1, 28, 1, 13, 1, 16, 13, 51, 13,
   4, 1, 3, 12, 17, 1, 4, 1, 2, 10, 1, 1, 2, 6, 6, 1, 3, 1, 3, 6, 1, 7, 2, 4, 5, 5, 38, 19, 2, 4,
   2803, 2, 241, 1, 689, 9, 4, 2, 1, 5, 2, 4, 99, 1, 95, 1, 49, 94, 29965, 2, 72, 10, 128, 1, 129,
   3, 3, 2, 358, 29, 479, 4, 9, 1, 6, 80, 11248, 23, 4, 49, 8452, 270, 2, 1, 1, 1, 2, 10, 1, 1, 1,
   1, 2, 2, 3, 68, 2, 106, 38, 7, 12, 5, 5, 1, 1, 10, 1, 13, 1, 5, 1, 1, 1, 2, 1, 2, 1, 108, 33,
   139, 6, 218, 18, 64, 2, 54, 40, 10, 6, 16, 35, 2, 24, 3, 33, 1, 5, 1, 1, 1, 1, 1, 1, 1, 1, 126,
   19, 10, 37, 1, 1, 26, 11, 89, 3, 6, 2, 6, 2, 6, 2, 3, 355, 53, 460, 1, 8, 1, 134, 5, 939, 5, 1,
   42, 1, 9, 7237, 111, 44278, 5, 3, 6, 8, 8, 2, 7, 30, 4, 148, 3, 443, 85, 1, 71, 1, 2, 2, 1, 2,
   2, 2, 4, 1, 12, 1, 1, 1, 7, 1, 65, 1, 4, 2, 8, 1, 7, 1, 28, 1, 4, 1, 5, 1, 1, 3, 7, 1, 340, 2,
   25, 1, 25, 1, 31, 1, 25, 1, 31, 1, 25, 1, 31, 1, 25, 1, 31, 1, 25, 1, 8, 2, 50, 5632, 4, 1, 27,
   1, 2, 1, 1, 2, 1, 1, 10, 1, 4, 1, 1, 1, 1, 6, 1, 4, 1, 1, 1, 1, 1, 1, 3, 1, 2, 1, 1, 2, 1, 1, 1,
   1, 1, 1, 1, 1, 1, 1, 2, 1, 1, 2, 4, 1, 7, 1, 4, 1, 4, 1, 1, 1, 10, 1, 17, 5, 3, 1, 5, 1, 17,
   3380, 10, 64518, 542, 722658, 240]

/-- The code points that stand in a label but continue no identifier in lower case. -/
def labelOnlyRuns : List Nat :=
  [1789, 2, 2060, 1, 1172, 86, 6713, 1]

/-- The marks that take up room of their own, and so are written from left to right. -/
def spacingMarkRuns : List Nat :=
  [2307, 1, 55, 1, 2, 3, 8, 4, 1, 2, 50, 2, 58, 3, 6, 2, 2, 2, 10, 1, 43, 1, 58, 3, 66, 1, 58, 3,
   8, 1, 1, 2, 53, 2, 58, 1, 1, 1, 6, 2, 2, 2, 10, 1, 102, 2, 1, 2, 3, 3, 1, 3, 10, 1, 41, 3, 61,
   4, 61, 2, 58, 7, 1, 3, 1, 2, 9, 2, 43, 2, 58, 3, 5, 3, 1, 3, 10, 1, 42, 2, 75, 3, 6, 8, 18, 2,
   330, 2, 63, 1, 171, 2, 4, 1, 6, 1, 2, 2, 25, 2, 10, 3, 2, 7, 21, 2, 2, 6, 2, 1, 10, 3, 1656, 1,
   30, 1, 129, 1, 7, 8, 1, 2, 346, 4, 2, 3, 4, 2, 1, 6, 224, 2, 58, 1, 1, 1, 9, 1, 1, 2, 8, 6, 145,
   1, 48, 1, 5, 1, 1, 5, 1, 2, 61, 1, 30, 1, 4, 2, 2, 1, 60, 1, 2, 3, 1, 1, 3, 2, 48, 8, 8, 2, 171,
   1, 21, 1, 4918, 2, 30707, 2, 2, 1, 88, 2, 50, 16, 142, 2, 47, 1, 48, 2, 4, 2, 2, 3, 110, 2, 2,
   2, 24, 1, 45, 1, 1, 1, 109, 1, 2, 2, 5, 1, 237, 2, 1, 2, 1, 2, 1, 1, 25619, 1, 1, 1, 127, 1, 45,
   3, 4, 2, 115, 1, 24, 2, 59, 1, 48, 3, 9, 2, 13, 1, 93, 3, 3, 2, 1, 1, 170, 3, 31, 2, 58, 2, 1,
   4, 2, 2, 2, 3, 9, 1, 10, 2, 209, 3, 8, 2, 3, 1, 106, 3, 6, 1, 1, 4, 2, 1, 237, 3, 6, 4, 2, 1,
   113, 3, 8, 2, 1, 1, 109, 1, 1, 2, 6, 1, 105, 2, 4, 1, 261, 3, 9, 1, 247, 6, 1, 2, 4, 1, 2, 1, 1,
   1, 142, 3, 8, 4, 4, 1, 34, 2, 48, 1, 29, 2, 62, 1, 407, 1, 14, 2, 105, 1, 7, 1, 2, 1, 213, 5, 4,
   2, 1, 1, 350, 2, 20570, 55, 104, 2, 24947, 2, 6, 6]

/-- The letters that are written from right to left. -/
def rightToLeftRuns : List Nat :=
  [1488, 27, 4, 6, 459, 43, 9, 2, 10, 22, 4, 1, 9, 1, 3, 1, 23, 25, 65447, 6, 2, 1, 1, 44, 1, 2, 3,
   1, 2, 23, 10, 23, 9, 31, 65, 19, 1, 2, 10, 22, 10, 26, 70, 56, 6, 2, 64, 1, 15, 4, 1, 3, 1, 29,
   42, 29, 3, 29, 35, 8, 1, 28, 27, 54, 10, 22, 10, 19, 13, 18, 110, 73, 119, 51, 397, 42, 6, 2,
   78, 29, 10, 1, 72, 18, 46, 21, 27, 23, 55305, 197, 93, 34, 7, 1, 4, 10]

/-- The letters of the Arabic kind, written from right to left too. -/
def arabicRuns : List Nat :=
  [1568, 32, 1, 10, 35, 2, 1, 4, 4, 91, 1, 1, 15, 2, 7, 2, 10, 6, 16, 1, 1, 30, 29, 89, 11, 1, 174,
   11, 5, 24, 1, 6, 17, 42, 62889, 1, 3724, 36, 524, 22]

/-- The digits that are written within text from right to left. -/
def arabicDigitRuns : List Nat :=
  [1632, 10, 67270, 10]

/-- The digits that are written within any text. -/
def europeanDigitRuns : List Nat :=
  [1776, 10]

/-- The signs without a direction. -/
def neutralRuns : List Nat :=
  [183, 1, 513, 2, 11, 10, 28, 1, 136, 1, 7318, 2, 3617, 1, 715, 1, 30083, 1, 151, 9, 104, 1]

/-- The letters that join the next one. -/
def joinsNextRuns : List Nat :=
  [1568, 1, 5, 1, 1, 1, 1, 5, 4, 13, 1, 7, 1, 2, 35, 2, 8, 16, 18, 38, 1, 2, 9, 1, 1, 1, 1, 2, 40,
   3, 2, 1, 18, 3, 5, 4, 1, 9, 1, 1, 1, 1, 1, 2, 31, 11, 3, 15, 2, 4, 1, 1, 2, 3, 2, 6, 74, 33, 86,
   5, 2, 1, 1, 10, 1, 1, 10, 1, 1, 4, 2, 1, 29, 1, 2, 5, 1, 1, 16, 10, 5, 2, 2, 6, 1, 15, 3902, 1,
   24, 89, 14, 34, 1, 1, 36757, 51, 25165, 5, 8, 1, 5, 10, 1, 3, 10, 4, 145, 1, 1, 1, 3, 3, 1, 2,
   1, 1, 2, 1, 28, 2, 337, 34, 1, 1, 415, 2, 1, 2, 104, 3, 1, 17, 12, 3, 28, 4, 2, 12, 46, 1, 1, 2,
   4, 1, 2, 2, 1, 2, 1, 1, 2, 1, 5, 2, 55604, 68]

/-- The letters that join the one before. -/
def joinsPreviousRuns : List Nat :=
  [1568, 1, 1, 30, 1, 10, 35, 2, 1, 3, 1, 95, 1, 1, 24, 2, 10, 3, 2, 1, 16, 1, 1, 30, 29, 51, 74,
   33, 85, 25, 7, 1, 1, 4, 1, 4, 5, 19, 3, 1, 2, 7, 16, 13, 1, 27, 3902, 1, 24, 89, 14, 34, 1, 1,
   36757, 50, 25166, 6, 1, 1, 1, 2, 3, 9, 1, 10, 2, 1, 6, 5, 144, 18, 23, 6, 338, 35, 414, 3, 1, 2,
   104, 21, 12, 4, 27, 18, 46, 1, 1, 5, 1, 8, 1, 4, 4, 2, 55605, 68]

/-- The marks that letters join across although they are not plain marks. -/
def transparentRuns : List Nat :=
  [173, 1, 1306, 2, 82, 1, 242, 1, 391, 1, 1063, 1, 6, 1, 519, 1, 3072, 15, 2, 12, 1311, 1, 2, 2,
   26, 5, 49, 5, 5, 6, 56975, 1, 249, 3, 3437, 5, 396, 6, 833, 1, 377, 6, 13, 1, 1, 1, 1, 1, 14, 2,
   1572, 2, 343, 1, 1, 3, 1, 1, 216, 1, 704, 2, 52, 5, 5, 1, 1, 1, 23, 1, 5333, 17, 6, 15, 11464,
   12, 3, 3, 23408, 4, 5327, 8, 3860, 1, 1116, 4, 254, 2, 243, 1, 2, 1, 7, 2, 5, 1, 597, 1, 792245,
   1, 30, 96]

/-- The plain marks that letters do not join across. -/
def barrierRuns : List Nat :=
  [71454, 1]

/-- The Greek letters and signs. -/
def greekRuns : List Nat :=
  [880, 4, 1, 3, 2, 4, 1, 1, 4, 1, 1, 1, 1, 3, 1, 1, 1, 20, 1, 63, 14, 16, 6438, 5, 50, 5, 4, 5,
   84, 1, 320, 22, 2, 6, 2, 38, 2, 6, 2, 8, 1, 1, 1, 1, 1, 1, 1, 31, 2, 53, 1, 15, 1, 14, 2, 6, 1,
   19, 2, 3, 1, 9, 295, 1, 35390, 1, 21978, 79, 17, 1, 53343, 70]

/-- The Hebrew letters and signs. -/
def hebrewRuns : List Nat :=
  [1425, 57, 6, 27, 4, 6, 62760, 26, 1, 5, 1, 1, 1, 2, 1, 2, 1, 10]

/-- The characters of Chinese and Japanese writing. -/
def eastAsianRuns : List Nat :=
  [11904, 26, 1, 89, 12, 214, 47, 1, 1, 1, 25, 9, 14, 4, 5, 86, 6, 3, 1, 90, 2, 3, 240, 16, 208,
   47, 1, 88, 168, 6592, 64, 20992, 22784, 366, 2, 106, 1164, 10, 1, 45, 28740, 2, 12, 7, 16377, 4,
   1, 7, 1, 2, 1, 291, 15, 1, 29, 3, 2, 1, 14, 4, 16536, 1, 3583, 42720, 32, 4382, 2, 5774, 2,
   7473, 15, 622, 2466, 542, 1506, 4939, 5, 8490]

/-- The code points of letters and digits that were added to scripts late. Labels may have them,
but nothing is known about how they are written. -/
def lateRuns : List Nat :=
  [1480, 2, 709, 1, 7, 1, 964, 1, 127, 1, 22, 1, 474, 1, 3072, 15, 2, 12, 414, 1, 35650, 1, 1, 1,
   11, 1, 24036, 52, 844, 26, 998, 16, 25, 5, 1, 23, 316, 6, 50, 6, 831, 3, 318, 10, 1, 1, 2, 1, 1,
   38, 1, 10, 1, 1, 2, 1, 1, 4, 1, 8, 13, 2, 749, 20, 1148, 8, 88, 33, 15, 10, 438, 44, 4, 10, 278,
   17, 1, 41, 3, 5, 13, 11, 5332, 1, 16, 22, 10, 3995, 7429, 58, 3078, 45, 3, 10, 6, 30, 2, 10,
   273, 25, 286, 2, 6148, 8, 1279, 1, 9, 22, 97, 115, 13, 914, 8096, 1, 34, 1, 11727, 6, 356, 1,
   1088, 42, 214, 43, 197, 31, 1, 22, 8, 2, 53305, 7, 5986, 12, 7490, 622, 9458, 8490, 39814, 11328]

/-- Characters that may stand in a label anywhere. -/
def isLabelChar (c : Char) : Bool :=
  if c.toNat < 128 then ('a' ≤ c && c ≤ 'z') || ('0' ≤ c && c ≤ '9') || c == '-'
  else
    (continuesIdentifier c && lower [c] == [c] && !inRuns otherFormRuns c.toNat) ||
      inRuns labelOnlyRuns c.toNat

/-- Characters that may stand in a label and whose direction is not known. -/
def isLate (c : Char) : Bool :=
  inRuns lateRuns c.toNat

/-- The characters of Tangut writing, which have numbers and no names. -/
def tangutRuns : List Nat :=
  [94208, 6136, 1288, 9]

/-- Characters that may stand in a label and have no name. -/
def isNameless (c : Char) : Bool :=
  isLate c || inRuns tangutRuns c.toNat

/-- The code points that continue an identifier, are no word characters and are no marks. -/
def connectorRuns : List Nat :=
  [183, 1, 719, 1, 7351, 2, 19, 1, 195, 1, 21, 1, 56580, 2, 24, 3, 239, 1]

/-- The marks that stand around a letter. They continue no identifier. -/
def enclosingMarkRuns : List Nat :=
  [1160, 2, 5684, 1, 1566, 4, 1, 3, 34187, 3]

/-- Combining marks. -/
def isMark (c : Char) : Bool :=
  (inRuns continuingRuns c.toNat && !inRuns connectorRuns c.toNat) ||
    inRuns enclosingMarkRuns c.toNat

/-- The direction in which a character of a label is written. -/
inductive Direction where
  | leftToRight
  | rightToLeft
  | arabic
  | arabicDigit
  | europeanDigit
  /-- The direction of the neighbours. -/
  | neutral
  /-- The direction of the character that carries the mark. -/
  | mark
  deriving DecidableEq, Repr

/-- The direction of a character of a label. -/
def direction (c : Char) : Direction :=
  let n := c.toNat
  if n < 128 then
    if '0' ≤ c && c ≤ '9' then .europeanDigit else if c == '-' then .neutral else .leftToRight
  else if inRuns rightToLeftRuns n then .rightToLeft
  else if inRuns arabicRuns n then .arabic
  else if inRuns arabicDigitRuns n then .arabicDigit
  else if inRuns europeanDigitRuns n then .europeanDigit
  else if inRuns neutralRuns n then .neutral
  else if isMark c && !inRuns spacingMarkRuns n then .mark
  else .leftToRight

/-- Marks that letters join across. -/
def isTransparent (c : Char) : Bool :=
  inRuns transparentRuns c.toNat ||
    (direction c == .mark && !inRuns barrierRuns c.toNat)

end PageCompiler.Address
