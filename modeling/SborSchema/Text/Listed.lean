/-
# Lists of texts

The written form of a list puts a comma and a blank between its parts.

Key definitions: `Text.listed`.
-/

namespace SborSchema.Text

/-- Texts with commas between them. -/
def listed (parts : List String) : String := ", ".intercalate parts

end SborSchema.Text
