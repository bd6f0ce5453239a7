import Recurrence.Rule.Part
import Recurrence.Rule.Draft
import Recurrence.Rule.Setting.Reader

namespace Recurrence

def Part.setting (p : Part) : Except RuleError Setting :=
  match Param.ofName? p.key with
  | some param => Setting.read param p.value
  | none => .error (.unknownParam p.key p.name.span)

def Draft.ofParts (parts : List Part) : Except RuleError Draft :=
  parts.foldlM (fun draft p ↦ do draft.push (← p.setting)) .empty

def Rule.parse (text : String) : Except RuleError Rule := do
  let draft ← Draft.ofParts (← Part.scan text)
  draft.build

end Recurrence
