/-!
# Aligned text
-/

namespace Dialogue.Text

/-- A text at the right end of a column of `width` characters; a longer text is kept whole. -/
def alignRight (width : Nat) (text : String) : String :=
  String.ofList (List.leftpad width ' ' text.toList)

end Dialogue.Text
