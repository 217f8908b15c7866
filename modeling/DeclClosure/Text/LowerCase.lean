import DeclClosure.Text.Ranges

/-!
# Names that lower-casing would change

A name counts as lower-case when writing it in small letters leaves it as it is. A character
stands in the way exactly when it has a small form other than itself, so a name is lower-case
iff none of its characters has one (`isLowerCase_iff`). No small form of several characters
begins with the character itself, hence no two changes can cancel out.

`lowerAscii` maps the 26 plain letters only. That is enough to recognise the plain-letter words
`true`, `yes` and `on`: no other character has one of their letters as its small form.
-/

namespace DeclClosure.Text

/-- The characters beyond the first 128 with a small form other than themselves. -/
def capitals : Array (Nat × Nat × Nat) := #[
  (192, 214, 1), (216, 222, 1), (256, 310, 2), (313, 327, 2), (330, 376, 2), (377, 381, 2),
  (385, 386, 1), (388, 390, 2), (391, 393, 2), (394, 395, 1), (398, 401, 1), (403, 404, 1),
  (406, 408, 1), (412, 413, 1), (415, 416, 1), (418, 422, 2), (423, 425, 2), (428, 430, 2),
  (431, 433, 2), (434, 435, 1), (437, 439, 2), (440, 440, 1), (444, 444, 1), (452, 453, 1),
  (455, 456, 1), (458, 459, 1), (461, 475, 2), (478, 494, 2), (497, 498, 1), (500, 502, 2),
  (503, 504, 1), (506, 562, 2), (570, 571, 1), (573, 574, 1), (577, 579, 2), (580, 582, 1),
  (584, 590, 2), (880, 882, 2), (886, 886, 1), (895, 895, 1), (902, 904, 2), (905, 906, 1),
  (908, 910, 2), (911, 913, 2), (914, 929, 1), (931, 939, 1), (975, 975, 1), (984, 1006, 2),
  (1012, 1012, 1), (1015, 1017, 2), (1018, 1018, 1), (1021, 1071, 1), (1120, 1152, 2),
  (1162, 1216, 2), (1217, 1229, 2), (1232, 1326, 2), (1329, 1366, 1), (4256, 4293, 1),
  (4295, 4295, 1), (4301, 4301, 1), (5024, 5109, 1), (7312, 7354, 1), (7357, 7359, 1),
  (7680, 7828, 2), (7838, 7934, 2), (7944, 7951, 1), (7960, 7965, 1), (7976, 7983, 1),
  (7992, 7999, 1), (8008, 8013, 1), (8025, 8031, 2), (8040, 8047, 1), (8072, 8079, 1),
  (8088, 8095, 1), (8104, 8111, 1), (8120, 8124, 1), (8136, 8140, 1), (8152, 8155, 1),
  (8168, 8172, 1), (8184, 8188, 1), (8486, 8486, 1), (8490, 8491, 1), (8498, 8498, 1),
  (8544, 8559, 1), (8579, 8579, 1), (9398, 9423, 1), (11264, 11311, 1), (11360, 11362, 2),
  (11363, 11364, 1), (11367, 11373, 2), (11374, 11376, 1), (11378, 11378, 1), (11381, 11381, 1),
  (11390, 11392, 1), (11394, 11490, 2), (11499, 11501, 2), (11506, 11506, 1), (42560, 42604, 2),
  (42624, 42650, 2), (42786, 42798, 2), (42802, 42862, 2), (42873, 42877, 2), (42878, 42886, 2),
  (42891, 42893, 2), (42896, 42898, 2), (42902, 42922, 2), (42923, 42926, 1), (42928, 42932, 1),
  (42934, 42948, 2), (42949, 42951, 1), (42953, 42953, 1), (42960, 42960, 1), (42966, 42968, 2),
  (42997, 42997, 1), (65313, 65338, 1), (66560, 66599, 1), (66736, 66771, 1), (66928, 66938, 1),
  (66940, 66954, 1), (66956, 66962, 1), (66964, 66965, 1), (68736, 68786, 1), (71840, 71871, 1),
  (93760, 93791, 1), (125184, 125217, 1)]

/-- The character has a small form other than itself. -/
def isCapital (c : Char) : Bool :=
  if c.toNat < 128 then c.isUpper else inSteps capitals c

/-- Writing the name in small letters leaves it as it is. -/
def isLowerCase (s : String) : Bool :=
  s.toList.all fun c ↦ !isCapital c

theorem isLowerCase_iff {s : String} :
    isLowerCase s = true ↔ ∀ c ∈ s.toList, isCapital c = false := by
  simp [isLowerCase]

/-- The plain letters in small form, everything else as it is. -/
def lowerAscii (s : String) : String :=
  s.map Char.toLower

theorem lowerAscii_eq (s : String) :
    lowerAscii s = String.ofList (s.toList.map Char.toLower) := by
  rw [lowerAscii, ← String.toList_inj, String.toList_map, String.toList_ofList]

end DeclClosure.Text
