import Recurrence.Rule.Param
import Recurrence.Text.Slice

namespace Recurrence

inductive RuleError where
  | missingEquals (part : String) (span : Span)
  | missingName (part : String) (span : Span)
  | innerBlank (part : String) (span : Span)
  | repeatedParam (name : String) (span : Option Span)
  | unknownParam (name : String) (span : Span)
  | absentParam (param : Param)
  | missingValue (param : Param) (span : Span)
  | badChoice (param : Param) (value : String) (span : Span)
  | badInteger (param : Param) (domain : Domain) (value : String) (span : Span)
  | badDate (value : String) (span : Span)
  /-- BYSETPOS selects from what the other BY parameters give, and none is there. -/
  | lonePositions
deriving DecidableEq

namespace RuleError

def message : RuleError → String
  | missingEquals part _ => s!"Malformed rule part '{part}', expected NAME=VALUE"
  | missingName part _ => s!"Empty parameter name in rule part '{part}'"
  | innerBlank part _ => s!"Whitespace is not permitted inside rule part '{part}'"
  | repeatedParam name _ => s!"Duplicate parameter '{name}'"
  | unknownParam name _ => s!"Unrecognized parameter '{name}'"
  | absentParam param => s!"Missing required parameter '{param.name}'"
  | missingValue param _ => s!"Parameter '{param.name}' has no value"
  | badChoice param value _ =>
    s!"Invalid value '{value}' for {param.name}, expected {param.domain.description}"
  | badInteger param domain value _ =>
    s!"Invalid integer '{value}' for {param.name}, expected {domain.description}"
  | badDate value _ =>
    s!"Invalid date format '{value}' for UNTIL, expected {Domain.dateTime.description}"
  | lonePositions =>
    "Parameter 'BYSETPOS' requires at least one of BYDAY, BYMONTHDAY, BYMONTH or BYWEEKNO"

def span? : RuleError → Option Span
  | missingEquals _ span
  | missingName _ span
  | innerBlank _ span
  | unknownParam _ span
  | missingValue _ span
  | badChoice _ _ span
  | badInteger _ _ _ span
  | badDate _ span => some span
  | repeatedParam _ span => span
  | absentParam _
  | lonePositions => none

def param? : RuleError → Option Param
  | absentParam param
  | missingValue param _
  | badChoice param _ _
  | badInteger param _ _ _ => some param
  | badDate _ _ => some .bound
  | lonePositions => some .bySetPos
  | repeatedParam name _ => Param.ofName? name
  | missingEquals _ _
  | missingName _ _
  | innerBlank _ _
  | unknownParam _ _ => none

end RuleError

end Recurrence
