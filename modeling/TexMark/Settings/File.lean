/-
  TexMark/Settings/File.lean
  ==========================
  **The settings file.** A settings file has a line `KEY=value` for each key, where quotes
  around the value are dropped; all other lines are passed over. Writing a key changes the
  lines of that key and no others.

  `SettingsFile.read` is `read_config`, `SettingsFile.write` is `write_key`.
-/
import TexMark.Table
import TexMark.Text.Blank
import TexMark.Text.LineBreak

namespace TexMark.SettingsFile

def isKeyStart (c : Char) : Bool := ('A' ≤ c && c ≤ 'Z') || c == '_'

def isKeyPart (c : Char) : Bool := isKeyStart c || ('0' ≤ c && c ≤ '9')

def isQuote (c : Char) : Bool := c == '"' || c == '\''

def entry? (line : Text) : Option (Text × Text) :=
  let stripped := Text.strip line
  let key := stripped.takeWhile isKeyPart
  match key, stripped.drop key.length with
  | first :: _, '=' :: value =>
    if isKeyStart first then some (key, Text.trim isQuote value) else none
  | _, _ => none

/-- The keys of a file with their values (`read_config`). Of several lines of a key the last
    counts. -/
def read (content : Text) : Table Text := Table.merge [] ((Text.splitLines content).filterMap entry?)

def isLineOf (key line : Text) : Bool := Text.startsWith line (key ++ ['='])

/-- The file with a key set: in its lines, or in a new line if there is none (`write_key`). -/
def write (content? : Option Text) (key value : Text) : Text :=
  let ls := Text.splitLines (content?.getD [])
  let line := key ++ '=' :: value
  let changed := ls.map fun l => if isLineOf key l then line else l
  Text.unlines (if ls.any (isLineOf key) then changed else changed ++ [line]) ++ ['\n']

end TexMark.SettingsFile
