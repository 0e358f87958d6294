import Interpolation.Text.Recognizer

/-!
# Numeric literals

A number is hexadecimal, octal, binary or decimal; a decimal may have a fraction and an exponent. Low lines
may stand between and after the digits, and a letter `j` or `l` may follow. Letters count in either case.
-/

namespace Interpolation.Number

open Recognizer

def isHexDigit (c : Char) : Bool := c.isDigit || ('a' ≤ c && c ≤ 'f') || ('A' ≤ c && c ≤ 'F')

def isOctalDigit (c : Char) : Bool := '0' ≤ c && c ≤ '7'

def isBinaryDigit (c : Char) : Bool := c = '0' || c = '1'

/-- One of two letters that differ in case only; `letter` is the one in lower case. -/
def either (letter : Char) : Recognizer := one (·.toLower = letter)

/-- A zero, the letter of a base, and at least one digit of the base or low line. -/
def based (letter : Char) (isDigit : Char → Bool) : Recognizer :=
  ((one (· = '0')).andThen (either letter)).andThen
    ((one fun c => isDigit c || c = '_').andThen (many fun c => isDigit c || c = '_'))

/-- A decimal digit, then decimal digits and low lines. -/
def digits : Recognizer := (one Char.isDigit).andThen (many fun c => c.isDigit || c = '_')

def exponent : Recognizer := ((either 'e').andThen (optional (one fun c => c = '+' || c = '-'))).andThen digits

/-- Digits with or without a point, or a point with digits behind it; then perhaps an exponent. -/
def decimal : Recognizer :=
  ((digits.andThen (optional ((one (· = '.')).andThen (optional digits)))).orElse
    ((one (· = '.')).andThen digits)).andThen (optional exponent)

/-- A numeric literal. -/
def number : Recognizer :=
  (firstOf [based 'x' isHexDigit, based 'o' isOctalDigit, based 'b' isBinaryDigit, decimal]).andThen
    (optional ((either 'j').orElse (either 'l')))

/-! ## Nothing is lost -/

theorem digits_splits : digits.Splits := (splits_one _).andThen (splits_many _)

theorem based_splits (letter : Char) (isDigit : Char → Bool) : (based letter isDigit).Splits :=
  ((splits_one _).andThen (splits_one _)).andThen ((splits_one _).andThen (splits_many _))

theorem exponent_splits : exponent.Splits :=
  ((splits_one _).andThen (splits_one _).optional).andThen digits_splits

theorem decimal_splits : decimal.Splits :=
  ((digits_splits.andThen ((splits_one _).andThen digits_splits.optional).optional).orElse
    ((splits_one _).andThen digits_splits)).andThen exponent_splits.optional

theorem number_splits : number.Splits :=
  (splits_firstOf (by simp [based_splits, decimal_splits])).andThen
    ((splits_one _).orElse (splits_one _)).optional

theorem digits_consumes : digits.Consumes := (consumes_one _).andThen _

theorem decimal_consumes : decimal.Consumes :=
  ((digits_consumes.andThen _).orElse ((consumes_one _).andThen _)).andThen _

theorem based_consumes (letter : Char) (isDigit : Char → Bool) : (based letter isDigit).Consumes :=
  ((consumes_one _).andThen _).andThen _

theorem number_consumes : number.Consumes :=
  (consumes_firstOf (by simp [based_consumes, decimal_consumes])).andThen _

end Interpolation.Number
