import ShapedReply.Table
import ShapedReply.Text.Word

/-!
# Settings

Three settings govern how replies are read. They can be set by environment variables: one of a few
words for a truth value, and a whole number for a count, which may have a margin, a plus sign,
leading zeros, a fraction of zeros, and underscores between its digits. The first variable that
cannot be read is reported.
-/

namespace ShapedReply

/-- How replies are read. -/
structure Settings where
  /-- Whether keys are restyled before a value is decoded. -/
  snakeCaseKeys : Bool := true
  /-- Whether a fitted value is checked. -/
  validateOutput : Bool := true
  /-- How many characters of a reply an error report keeps. -/
  errorPreviewChars : Int := 200

/-- Why the text of a variable cannot be read. -/
inductive SettingFault where
  | notTruth
  | notWhole
  | tooLong
  | negative

/-- The wording of a fault. -/
def SettingFault.message : SettingFault → String
  | .notTruth => "Input should be a valid boolean, unable to interpret input"
  | .notWhole => "Input should be a valid integer, unable to parse string as an integer"
  | .tooLong => "Unable to parse input string as an integer, exceeded maximum size"
  | .negative => "Input should be greater than or equal to 0"

/-- A variable that cannot be read. -/
structure SettingsError where
  /-- The variable. -/
  variableName : String
  /-- What is wrong with it. -/
  fault : SettingFault

/-- The wording of an error. -/
def SettingsError.message (e : SettingsError) : String :=
  "Invalid value for " ++ e.variableName ++ ": " ++ e.fault.message

namespace Settings

/-- An ASCII capital as a small letter; other characters as they are. -/
def small (c : Char) : Char :=
  if 'A' ≤ c && c ≤ 'Z' then Char.ofNat (c.toNat + 32) else c

/-- A text that names a truth value. -/
def readTruth (s : String) : Except SettingFault Bool :=
  let word := String.ofList (s.toList.map small)
  if ["0", "off", "f", "false", "n", "no"].contains word then .ok false
  else if ["1", "on", "t", "true", "y", "yes"].contains word then .ok true
  else .error .notTruth

/-- Whether a character may surround a number: any blank but the four control characters that
separate records. -/
def isMargin (c : Char) : Bool :=
  Text.isBlank c && !('\x1c' ≤ c && c ≤ '\x1f')

/-- A text without what surrounds it. -/
def withoutMargin (t : Text) : Text :=
  ((t.dropWhile isMargin).reverse.dropWhile isMargin).reverse

/-- A text without its plus sign; a plus sign before a minus sign is refused. -/
def dropPlus : Text → Option Text
  | '+' :: '-' :: _ => none
  | '+' :: r => some r
  | t => some t

/-- What follows leading zeros, given the character just passed. Underscores may stand among the
zeros, and a minus sign after them. The character before a point or the end is kept. -/
def afterZeros (passed : Char) : Text → Option Text
  | [] => some [passed]
  | c :: r =>
    if c == '0' || c == '_' then afterZeros c r
    else if Text.isAsciiDigit c || c == '-' then some (c :: r)
    else if c == '.' then some (passed :: c :: r)
    else none

/-- A text without its leading zeros; it has to begin with a digit or a minus sign. -/
def dropZeros : Text → Option Text
  | [] => none
  | c :: r =>
    if c == '0' then afterZeros c r
    else if Text.isAsciiDigit c || c == '-' then some (c :: r)
    else none

/-- A text without a fraction of zeros. -/
def dropFraction (t : Text) : Text :=
  match t.dropWhile (· != '.') with
  | '.' :: fraction =>
    if !fraction.isEmpty && fraction.all (· == '0') then t.takeWhile (· != '.') else t
  | _ => t

/-- Whether every underscore follows a digit and the text ends in a digit; the flag tells whether a
digit stands before the text. -/
def isJoined : Bool → Text → Bool
  | afterDigit, [] => afterDigit
  | afterDigit, c :: r =>
    if c == '_' then afterDigit && isJoined false r else isJoined (Text.isAsciiDigit c) r

/-- A text without underscores that join its digits. -/
def dropJoints (t : Text) : Text :=
  if isJoined false t then t.filter (· != '_') else t

/-- A row of digits as a number; there has to be one. -/
def readDigits (t : Text) : Option Nat :=
  if !t.isEmpty && t.all Text.isAsciiDigit then
    some (t.foldl (fun n c => 10 * n + (c.toNat - '0'.toNat)) 0)
  else none

/-- Digits after an optional minus sign. -/
def readWhole : Text → Option Int
  | '-' :: r => (readDigits r).map fun n => -(n : Int)
  | t => (readDigits t).map fun n => (n : Int)

/-- A number as it is read: without its margin, plus sign, leading zeros, fraction of zeros and
joints. -/
def bareNumber (t : Text) : Option Text := do
  let unsigned ← dropPlus (withoutMargin t)
  let significant ← dropZeros unsigned
  return dropJoints (dropFraction significant)

/-- The most characters that a number may have. -/
def longestNumber : Nat := 4300

/-- A text that is a count. -/
def readCount (s : String) : Except SettingFault Int :=
  match bareNumber s.toList with
  | none => .error .notWhole
  | some t =>
    if longestNumber < t.length then .error .tooLong
    else match readWhole t with
      | none => .error .notWhole
      | some n => if n < 0 then .error .negative else .ok n

/-- One setting: the text of its variable if that is set, else the default. -/
def readVariable {α : Type} (environment : Table String) (variableName : String)
    (read : String → Except SettingFault α) (default : α) : Except SettingsError α :=
  match environment.get? variableName with
  | some s => (read s).mapError fun fault => ⟨variableName, fault⟩
  | none => .ok default

/-- The settings of an environment. -/
def ofEnvironment (environment : Table String) : Except SettingsError Settings := do
  let snakeCaseKeys ← readVariable environment "SWAML_SNAKE_CASE_KEYS" readTruth true
  let validateOutput ← readVariable environment "SWAML_VALIDATE_OUTPUT" readTruth true
  let errorPreviewChars ← readVariable environment "SWAML_ERROR_PREVIEW_CHARS" readCount 200
  return { snakeCaseKeys, validateOutput, errorPreviewChars }

end Settings

end ShapedReply
