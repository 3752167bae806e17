import RecordQuery.Model.Metadata
import RecordQuery.Pattern.Reader
import RecordQuery.Request.Draft
import RecordQuery.Validation.Violation

/-!
# Checks of filters

A filter names a field that may be filtered, an operator of the vocabulary that the field has, and
an operand that the operator and the kind of the field take.

* `Metadata.checkFilter` turns a draft of a filter into a criterion.
* A range is put in order, and a list of values loses its repetitions.
-/

namespace RecordQuery

namespace Metadata

variable (md : Metadata)

/-- An operand as a value of the kind of its field. -/
def coerced (field : String) (raw : Value) : Except Refusal Value :=
  match coerce (md.kind field) ((md.options? field).getD []) raw with
  | .ok v => .ok v
  | .error (.invalid wanted) => refuse field (.invalid wanted) raw
  | .error (.fault f) => .error (.fault f)

/-- The operands in a list or tuple, or the operand itself, without those that are missing. -/
def operandsIn (raw : Value) : List Value := (raw.items?.getD [raw]).filter fun v => !v.isMissing

/-- Both of two checks, with the violations of both. -/
def both (a : Except Refusal Value) (b : Unit → Except Refusal Value) :
    Except Refusal (Value × Value) :=
  match a with
  | .error (.fault f) => .error (.fault f)
  | .ok x => (b ()).map fun y => (x, y)
  | .error (.violations vs) =>
    match b () with
    | .error (.fault f) => .error (.fault f)
    | .error (.violations ws) => .error (.violations (vs ++ ws))
    | .ok _ => .error (.violations vs)

def isDecimalNan : Value → Bool
  | .decimal (.nan ..) => true
  | _ => false

def isSignaling : Value → Bool
  | .decimal d => d.isSignaling
  | _ => false

/-- The ends of a range, the lower one first. -/
def inOrder (a b : Value) : Except Fault (Value × Value) :=
  if isDecimalNan a || isDecimalNan b then .error .invalidOperation
  else .ok (if b.compare? a = some .lt then (b, a) else (a, b))

def rangeOperand (field : String) (raw : Value) : Except Refusal Value :=
  match operandsIn raw with
  | [a, b] =>
    match both (md.coerced field a) fun _ => md.coerced field b with
    | .error e => .error e
    | .ok (x, y) =>
      match inOrder x y with
      | .ok (low, high) => .ok (.tuple [low, high])
      | .error f => .error (.fault f)
  | _ => refuse field .twoValuesRequired raw

/-- Adds a value to those that differ from each other, unless it equals one of them. -/
def addDistinct (values : List Value) (v : Value) : Except Refusal (List Value) :=
  if !values.isEmpty && (v :: values).any isSignaling then .error (.fault .invalidOperation)
  else .ok (if values.any v.eqv then values else values ++ [v])

/-- The values of a list in the order in which they first occur. -/
def distinctCoerced (field : String) (values : List Value) :
    List Value → Except Refusal (List Value)
  | [] => .ok values
  | raw :: rest => do
    let v ← md.coerced field raw
    distinctCoerced field (← addDistinct values v) rest

def listOperand (field : String) (op : Operator) (raw : Value) : Except Refusal Value :=
  match operandsIn raw with
  | [] => refuse field (.valuesRequired op) raw
  | values => (md.distinctCoerced field [] values).map .tuple

def isCollection (v : Value) : Bool := v.items?.isSome || v.entries?.isSome

/-- No operand, or a blank one for a field that is not text. -/
def isBlankFor (kind : Kind) : Value → Bool
  | .null => true
  | .text s => (Text.trimChars s.toList).isEmpty && kind != .text
  | _ => false

def expressionOperand (field : String) (raw : Value) : Except Refusal Value :=
  match Pattern.read? md.model.characterNames raw.chars with
  | .ok _ => .ok (.text raw.toText)
  | .error .malformed => refuse field .invalidExpression raw
  | .error .countTooLarge | .error .tooDeep => .error (.fault .tooLarge)
  | .error .conflictingModes => .error (.fault .unreadable)

def singleOperand (field : String) (op : Operator) (raw : Value) : Except Refusal Value :=
  if isCollection raw then refuse field (.singleValueRequired op) raw
  else if isBlankFor (md.kind field) raw then refuse field .valueRequired raw
  else if op = .regex then md.expressionOperand field raw
  else if op.isTextual then
    if raw.toText = "" then refuse field .valueRequired raw else .ok (.text raw.toText)
  else md.coerced field raw

/-- The operand of an operator on a field. -/
def operand (field : String) (op : Operator) (raw : Value) : Except Refusal Value :=
  if op.isValueless then .ok .null
  else if op = .custom then
    if raw.isMissing then refuse field .valueRequired raw else .ok raw
  else if op = .between then md.rangeOperand field raw
  else if op.isListed then md.listOperand field op raw
  else md.singleOperand field op raw

def checkFilter (draft : DraftFilter) : Except Refusal FilterCriterion :=
  if !md.isFilterable draft.field then refuse draft.field .notFilterable (.text draft.field)
  else match Operator.ofName? draft.operator with
    | none => refuse draft.field .unknownOperator (.text draft.operator)
    | some op =>
      if !md.supports draft.field op then
        refuse draft.field .unsupportedOperator (.text draft.operator)
      else (md.operand draft.field op draft.value).map fun value =>
        { field := draft.field
          operator := op
          value
          valueType := (md.kind draft.field).name
          caseSensitive := md.isCaseSensitive draft.field }

end Metadata
end RecordQuery
