import RecordQuery.Cursor
import RecordQuery.Number.Binary64
import RecordQuery.Text.Blank

/-!
# Settings

The settings of a service, which are read from values that may be texts.

* `Settings.ofValues?` reads all settings, or names those that cannot be read.
-/

namespace RecordQuery

open RecordQuery.Number RecordQuery.Text

structure Settings where
  appEnv : String := "local"
  appName : String := "adaptive-query-engine"
  corsOrigins : String := "http://localhost:3000,http://localhost:5173"
  databaseUrl : String := "sqlite://"
  sqlEcho : Bool := false
  maxPageSize : Int := 1000
  defaultPageSize : Int := 20
  queryTimeout : Binary64 := .ofRatio false 10 1
  cursorSecret : String := .ofList Cursor.defaultSecret
  strictFieldValidation : Bool := true
  defaultResponseFormat : String := "standard"
deriving Repr

namespace Settings

/-! ## Readers of single settings -/

/-- Blanks at the ends of a number do not count; separators of records are none of them. -/
def isSpace (c : Char) : Bool := isBlank c && !(0x1C ≤ c.toNat && c.toNat ≤ 0x1F)

def withoutSpace (s : String) : List Char := stripChars isSpace s.toList

/-- A number without single underscores between its characters. -/
def withoutUnderscores (cs : List Char) : List Char :=
  if cs.head? = some '_' ∨ cs.getLast? = some '_' ∨ containsChars ['_', '_'] cs then cs
  else cs.filter fun c => c != '_'

/-- A number without a point that only zeros follow. -/
def withoutZeroPlaces (cs : List Char) : List Char :=
  match cutAt '.' cs with
  | (whole, some places) => if places.all fun c => c = '0' then whole else cs
  | (_, none) => cs

def intOfChars? (cs : List Char) : Option Int := do
  let (negative, digits) := splitSign (withoutZeroPlaces (withoutUnderscores cs))
  if digits.length > maxDigits then none
  let n ← readNat digits
  return if negative then -(n : Int) else n

def int? : Value → Option Int
  | .bool b => some (if b then 1 else 0)
  | .int n => some n
  | .float x => x.toInt?
  | .text s => intOfChars? (withoutSpace s)
  | _ => none

def float? : Value → Option Binary64
  | .bool b => Binary64.ofInt? (if b then 1 else 0)
  | .int n => Binary64.ofInt? n
  | .float x => some x
  | .text s => Binary64.read? (withoutUnderscores (withoutSpace s))
  | _ => none

def yesWords : List String := ["1", "on", "t", "true", "y", "yes"]
def noWords : List String := ["0", "off", "f", "false", "n", "no"]

def bool? : Value → Option Bool
  | .bool b => some b
  | .text s =>
    let word := String.ofList (s.toList.map Char.toLower)
    if yesWords.contains word then some true
    else if noWords.contains word then some false else none
  | v =>
    match int? v with
    | some n => if n = 0 then some false else if n = 1 then some true else none
    | none => none

/-- A secret, which is not blank. -/
def secret? (v : Value) : Option String :=
  (v.text?.map trim).filter fun s => s != ""

/-! ## All settings -/

/-- A setting that is read from the values, or keeps what it is if it is not among them. -/
structure Setting where
  name : String
  read : Value → Settings → Option Settings

def all : List Setting := [
  ⟨"APP_ENV", fun v s => v.text?.map fun x => { s with appEnv := x }⟩,
  ⟨"APP_NAME", fun v s => v.text?.map fun x => { s with appName := x }⟩,
  ⟨"CORS_ORIGINS", fun v s => v.text?.map fun x => { s with corsOrigins := x }⟩,
  ⟨"CURSOR_SECRET", fun v s => (secret? v).map fun x => { s with cursorSecret := x }⟩,
  ⟨"DATABASE_URL", fun v s => v.text?.map fun x => { s with databaseUrl := x }⟩,
  ⟨"DEFAULT_PAGE_SIZE", fun v s => (int? v).map fun x => { s with defaultPageSize := x }⟩,
  ⟨"DEFAULT_RESPONSE_FORMAT",
    fun v s => v.text?.map fun x => { s with defaultResponseFormat := x }⟩,
  ⟨"MAX_PAGE_SIZE", fun v s => (int? v).map fun x => { s with maxPageSize := x }⟩,
  ⟨"QUERY_TIMEOUT_SECONDS", fun v s => (float? v).map fun x => { s with queryTimeout := x }⟩,
  ⟨"SQL_ECHO", fun v s => (bool? v).map fun x => { s with sqlEcho := x }⟩,
  ⟨"STRICT_FIELD_VALIDATION",
    fun v s => (bool? v).map fun x => { s with strictFieldValidation := x }⟩]

/-- The settings read so far, with the names of those that could not be read. -/
def readOne (values : Entries) (state : Settings × List String) (setting : Setting) :
    Settings × List String :=
  match values.get? setting.name with
  | none => state
  | some v =>
    match setting.read v state.1 with
    | some s => (s, state.2)
    | none => (state.1, state.2 ++ [setting.name])

/-- The settings that values give, or the names of those that cannot be read, in order. -/
def ofValues? (values : Entries) : Except (List String) Settings :=
  match all.foldl (readOne values) ({}, []) with
  | (s, []) => .ok s
  | (_, names) => .error names

/-- The origins from which requests are allowed. -/
def corsOriginsList (s : Settings) : List String :=
  (((splitOn ',' s.corsOrigins.toList).map trimChars).filter fun o => !o.isEmpty).map .ofList

end Settings
end RecordQuery
