/-
The canonical form of a message. Look-alike characters and keywords split by a point or a space are
replaced by what they stand for; characters that take no room are removed, and since a keyword may
have been split by them, the substitution is then made once more.
-/
import Triage.Text.Substitution

namespace Triage.Text

/-! ## Invisible characters -/

/-- Zero-width space to right-to-left mark, and the byte-order mark. -/
def isInvisible (c : Char) : Bool :=
  (0x200b ≤ c.toNat && c.toNat ≤ 0x200f) || c.toNat == 0xfeff

/-- A text without its invisible characters. -/
def visible (s : String) : String :=
  String.ofList (s.toList.filter (!isInvisible ·))

/-- Whether a text has an invisible character. -/
def hasInvisible (s : String) : Bool :=
  s.toList.any isInvisible

/-! ## Normal form -/

/-- The normal form over a table of substitutions. -/
def Substitution.normalize (s : Substitution) (text : String) : String :=
  let once := (s.replace text).1
  if hasInvisible once then (s.replace (visible once)).1 else once

/-- The normal form of a text that may be absent, which counts as empty. -/
def Substitution.normalizeOption (s : Substitution) (text : Option String) : String :=
  (text.map s.normalize).getD ""

/-- The look-alikes and split keywords known to be used. -/
def confusables : Substitution where
  entries :=
    [("薇", "微"), ("丄", "上"), ("沖", "冲"), ("値", "值"), ("玳", "代"), ("菠", "博"),
     ("菜", "彩"), ("Ⓑ", "B"), ("Ⓒ", "C"), ("v.x", "vx"), ("V.X", "VX"), ("V X", "VX")]
  keys_ne_empty := by decide
  keys_nodup := by decide

/-- The normal form of a text. -/
def normalize (text : String) : String :=
  confusables.normalize text

/-- The normal form of a text that may be absent. -/
def normalizeOption (text : Option String) : String :=
  confusables.normalizeOption text

end Triage.Text
