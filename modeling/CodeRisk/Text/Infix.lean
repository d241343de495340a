/-!
# Parts of texts

Whether a text stands somewhere inside another, or at its beginning.
-/
namespace CodeRisk.Text

/-- Whether `part` stands somewhere in the list. -/
def hasInfix (part : List Char) : List Char → Bool
  | [] => part.isEmpty
  | c :: cs => part.isPrefixOf (c :: cs) || hasInfix part cs

/-- Whether `part` stands somewhere in the text. -/
def contains (part text : String) : Bool :=
  hasInfix part.toList text.toList

theorem hasInfix_iff {part text : List Char} : hasInfix part text ↔ part <:+: text := by
  induction text with
  | nil => simp [hasInfix]
  | cons c cs ih =>
    rw [hasInfix, Bool.or_eq_true, ih, List.isPrefixOf_iff_prefix, List.infix_cons_iff]

theorem contains_iff {part text : String} :
    contains part text ↔ part.toList <:+: text.toList :=
  hasInfix_iff

/-- Whether the text begins with `start`. -/
def startsWith (start text : String) : Bool :=
  start.toList.isPrefixOf text.toList

end CodeRisk.Text
