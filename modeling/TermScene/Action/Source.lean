import TermScene.Action.Basic
import TermScene.Directive
import TermScene.Double.Shortest
import TermScene.Part.Printed
import TermScene.Time

/-!
# The source text of an action

Every action is written as one directive in a normal form: the value behind the
colon where it is read back from there, on the next line otherwise. The text has
no final line feed.
-/

namespace TermScene.Action

/-- The action as it is written in a scenario. -/
def write : Action → Text
  | input parts => Directive.write .input (Part.render parts)
  | output [] => Keyword.output.text ++ [':']
  | output parts => Keyword.output.text ++ ':' :: '\n' :: Part.writeLines parts
  | paste parts => Directive.write .paste (Part.render parts)
  | delay ns => Directive.write .delay (Whole.print (ns / Time.milli))
  | clear => Keyword.clear.text ++ [':']
  | prompt text => Directive.write .prompt (text.getD "false".toList)
  | cursor visible => Directive.write .cursor (if visible then "true".toList else "false".toList)
  | scroll lines => Directive.write .scrollLines (Whole.printInt lines.toInt)
  | margin .x px => Directive.write .marginX (Whole.printInt px.toInt)
  | margin .y px => Directive.write .marginY (Whole.printInt px.toInt)
  | typingSpeed multiplier => Directive.write .typingSpeed multiplier.print

/-- Actions as they are written, each on lines of its own. -/
def writeAll (actions : List Action) : Text := actions.flatMap fun a => a.write ++ ['\n']

end TermScene.Action
