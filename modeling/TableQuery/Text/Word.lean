import TableQuery.Text.Alphabetic
import TableQuery.Text.Numeric

/-! Words: maximal runs of letters, number characters and underscores, and the letter case in which
words are compared. -/
namespace TableQuery.Text

/-- A word begins with a letter or an underscore. -/
def isWordStart (c : Char) : Bool := isAlphabetic c || c == '_'

def isWordChar (c : Char) : Bool := isAlphabetic c || isNumeric c || c == '_'

theorem isWordChar_of_isWordStart {c : Char} (h : isWordStart c = true) : isWordChar c = true := by
  simp only [isWordStart, isWordChar, Bool.or_eq_true] at *
  rcases h with h | h <;> simp [h]

/-- The ASCII capital whose capital form `c` has, else `c` itself. Besides `a` to `z` these are the
dotless `ı` and the long `ſ`; no other single letter is capitalised into ASCII. -/
def capital (c : Char) : Char :=
  if c = 'ı' then 'I' else if c = 'ſ' then 'S' else c.toUpper

/-- The form in which a word is compared with the keywords, which are ASCII capitals. -/
def capitals (word : List Char) : List Char := word.map capital

/-- The form in which a word is compared with the names that are written in ASCII small letters. -/
def smallLetters (word : List Char) : List Char := word.map Char.toLower

@[simp] theorem length_capitals (word : List Char) : (capitals word).length = word.length := by
  simp [capitals]

end TableQuery.Text
