import CssValues.Value.Basic

/-!
# Errors

An operation that refuses its arguments says why with an `Error`; `Error.message` is the wording.
-/

namespace CssValues

def Fault.message : Fault → Text
  | .integerTooLarge => "int too large to convert to float".toList
  | .quotientTooLarge => "integer division result too large for a float".toList
  | .divisionByZero => "division by zero".toList
  | .nanToInteger => "cannot convert float NaN to integer".toList
  | .infinityToInteger => "cannot convert float infinity to integer".toList
  | .tooManyDigits count =>
    "Exceeds the limit (4300 digits) for integer string conversion: value has ".toList
      ++ Text.ofNat count
      ++ " digits; use sys.set_int_max_str_digits() to increase the limit".toList
  | .tooLong =>
    "Exceeds the limit (4300 digits) for integer string conversion".toList
      ++ "; use sys.set_int_max_str_digits() to increase the limit".toList

/-- Why an operation refuses its arguments. -/
inductive Error where
  | fault (f : Fault)
  /-- A length needs a finite number. -/
  | lengthNotFinite (got : Value)
  | unknownUnit (got : Value)
  /-- A percentage needs a number other than NaN. -/
  | percentageNotNumber (got : Value)
  /-- A context parameter of the given name needs a number. -/
  | dimensionNotNumber (name : Text) (got : Value)
  /-- A context parameter of the given name needs a finite positive number. -/
  | dimensionNotPositive (name : Text) (got : Value)
  | unknownParameters (names : List Text)
  | unsupportedTermUnit (got : Value)
  | unknownOperator (got : Text)
  /-- A conversion to pixels without a unit. -/
  | noUnit
  /-- A colour without one of its channels. -/
  | missingChannel (name : Text)
  /-- A declaration set without the property asked for. -/
  | missingProperty (name : Text)
  /-- Values of this type are never changed. -/
  | immutable (type : Text)
  /-- Values of this type have no hash. -/
  | unhashable (type : Text)
  /-- A value of this type names no file. -/
  | notPath (type : Text)
  /-- A file name with a null character. -/
  | nullInPath
  /-- A folder cannot be made under this path, where a file is. -/
  | fileExists (path : Text)
  /-- A folder cannot be made under this path, which leads through a file. -/
  | notFolder (path : Text)
  /-- A folder cannot be opened for writing. -/
  | isFolder (path : Text)
  /-- A value of this type is no number. -/
  | notNumber (type : Text)
  /-- A text that does not read as a number. -/
  | notNumeral (t : Text)
  /-- A text that does not read as an integer. -/
  | notIntegerNumeral (t : Text)
  /-- An operation that values of these two types do not have. -/
  | noOperation (symbol : Char) (left right : Text)
  /-- A list or text is repeated by integers only, not by numbers of this type. -/
  | notRepeatable (type : Text)
  /-- A list or text cannot be continued with a value of another type. -/
  | notJoinable (left right : Text)

namespace Error

/-- How much is quoted of a text that is no integer; the rest is left out, closing quote and all. -/
def longestQuote : Nat := 200

def message : Error → Text
  | .fault f => f.message
  | .lengthNotFinite got => "Length value must be a finite number, got ".toList ++ got.shown
  | .unknownUnit got => "Unknown length unit: ".toList ++ got.shown
  | .percentageNotNumber got => "Percentage value must be a number, got ".toList ++ got.shown
  | .dimensionNotNumber name got => name ++ " must be a number, got ".toList ++ got.shown
  | .dimensionNotPositive name got =>
    name ++ " must be a finite positive number, got ".toList ++ got.shown
  | .unknownParameters names =>
    "Unknown context parameters: ".toList ++ Text.join [',', ' '] (Text.sort names)
  | .unsupportedTermUnit got => "Unsupported calc() term unit: ".toList ++ got.shown
  | .unknownOperator got => got.quoted ++ " is not a valid CalcOperator".toList
  | .noUnit => "Unsupported length unit: None".toList
  | .missingChannel name => name.quoted
  | .missingProperty name => name.quoted
  | .immutable type => type ++ " is immutable".toList
  | .unhashable type => "unhashable type: ".toList ++ type.quoted
  | .notPath type => "expected str, bytes or os.PathLike object, not ".toList ++ type
  | .nullInPath => "embedded null byte".toList
  | .fileExists path => "[Errno 17] File exists: ".toList ++ path.quoted
  | .notFolder path => "[Errno 20] Not a directory: ".toList ++ path.quoted
  | .isFolder path => "[Errno 21] Is a directory: ".toList ++ path.quoted
  | .notNumber type =>
    "float() argument must be a string or a real number, not ".toList ++ type.quoted
  | .notNumeral t => "could not convert string to float: ".toList ++ t.quoted
  | .notIntegerNumeral t =>
    "invalid literal for int() with base 10: ".toList ++ t.quoted.take longestQuote
  | .noOperation symbol left right =>
    "unsupported operand type(s) for ".toList ++ symbol :: ": ".toList ++ left.quoted
      ++ " and ".toList ++ right.quoted
  | .notRepeatable type => "can't multiply sequence by non-int of type ".toList ++ type.quoted
  | .notJoinable left right =>
    "can only concatenate ".toList ++ left ++ " (not ".toList ++ Text.quotationMark :: right
      ++ Text.quotationMark :: ") to ".toList ++ left

end Error

/-- A result of arithmetic, with its fault as the error of the operation that met it. -/
def orFault {α : Type} (result : Except Fault α) : Except Error α :=
  result.mapError Error.fault

@[simp] theorem orFault_ok {α : Type} (a : α) : orFault (.ok a) = .ok a := rfl

@[simp] theorem orFault_error {α : Type} (f : Fault) :
    orFault (.error f : Except Fault α) = .error (.fault f) := rfl

end CssValues
