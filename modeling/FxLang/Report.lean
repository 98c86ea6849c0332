import FxLang.Error
import FxLang.Session.Diagnostic
import FxLang.Text.Lines

/-!
# Reports

A report shows an error or a diagnostic over the line of the source where it stands:

```text
Error: UnexpectedEof (Reached end of file while recovering statement)
-> prog.fx:20
   |
20 | x = 1
   |
```
-/

namespace FxLang

/-- A bar in the column of the bar behind a line number of so many digits. -/
def Report.bar (digits : Nat) : String :=
  String.ofList (List.replicate (digits + 1) ' ' ++ ['|'])

/-- A line of the source behind its number, between two bars. A line that the source does not have
is shown as empty. Mirrors `render_snippet`. -/
def Report.snippet (source : String) (line : UInt32) : String :=
  let number := toString line
  let bar := bar number.length
  let text := Text.dropIndentation ((Text.line? source line).getD "")
  bar ++ "\n" ++ number ++ " | " ++ text ++ "\n" ++ bar

/-- The lines that show an error: its name with the tip, its position and the snippet. Mirrors
`display_error`. -/
def Error.report (e : Error) (source : String) : List String :=
  let heading := match e.cause.tip with
    | none => "Error: " ++ e.cause.name
    | some tip => "Error: " ++ e.cause.name ++ " (" ++ tip ++ ")"
  [heading, "-> " ++ e.position.text, Report.snippet source e.position.line]

/-- The lines that show a diagnostic: its text and the snippet. Mirrors `display_diagnostic`. -/
def Diagnostic.report (d : Diagnostic) (source : String) : List String :=
  [d.text, Report.snippet source d.position.line]

end FxLang
