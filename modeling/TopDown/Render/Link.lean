import TopDown.Text.Percent

/-!
# Links

A link opens DOT text in an online viewer: the text is the fragment after the address of the viewer.
Links have a greatest length, and DOT text that needs a longer one has none.
-/

namespace TopDown

namespace Link

def home : String := "https://dreampuf.github.io/GraphvizOnline/"

/-- The number of characters that a link may have. -/
def limit : Nat := 32000

/-- The link for DOT text. Address and fragment stay below the limit together, so that there is room
for the mark between them. -/
def ofDot? (dot : String) : Option String :=
  let fragment := Text.percentEncode dot
  if limit ≤ home.length + fragment.length then none
  else some (home ++ "#" ++ String.ofList fragment)

end Link

end TopDown
