import DiceScript.Text.Blank
import DiceScript.Text.Letter

/-!
Names of variables and keys. Two spellings name the same thing when they have the same words in the
same letters, whatever the case of the letters and the blanks around and between the words.
-/

namespace DiceScript.Name

/-- The normal form of a name: its words in upper case, joined by underscores. `hp base`, `HP_Base`
and ` Hp base ` all have the normal form `HP_BASE`. -/
def normalize (name : String) : String :=
  String.ofList (List.intercalate ['_'] ((Text.words name.toList).map Letter.upperText))

/-- An identifier in lower case. Identifiers are written in ASCII. -/
def fold (name : String) : String := String.ofList (name.toList.map Char.toLower)

end DiceScript.Name
