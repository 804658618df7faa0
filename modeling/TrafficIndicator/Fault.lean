import TrafficIndicator.Text.Quoted
/-!
The causes for which an operation of the indicator can fail, and their wording.
-/
namespace TrafficIndicator

inductive Fault where
  | notAnInteger (text : LooseText)
  | numeralTooLong (digits : Nat)
  /-- An integer has no binary64 number near it. -/
  | integerTooLarge
  | infiniteNotInteger
  | undefinedNotInteger
  | zeroDivisor
  /-- A value that is neither a number nor a text stands where an integer is needed. -/
  | notNumeric
  /-- A decimal has no form of at most the working precision at the asked places. -/
  | decimalOutOfRange
  /-- The first digit of a quotient, or the asked places, lie beyond the largest exponent. -/
  | decimalOverflow
  | noUnit
  | noText
  /-- Lists and mappings lie deeper in one another than can be read or written. -/
  | tooDeep
  /-- A setting is to be told when nobody listens any more. -/
  | notListening
  | undecodable
  /-- A path holds a character that ends every path. -/
  | pathBroken
  /-- A text that is needed in bytes holds lone surrogates. -/
  | unencodable
  | countersMissing (path : String)
  /-- A failure that a collaborator reports in its own words. -/
  | reported (message : LooseText)
  deriving DecidableEq, Repr

def Fault.quoteLimit : Nat := 200

/-- The largest number of digits that a numeral may have. -/
def digitLimit : Nat := 4300

def Fault.message : Fault → LooseText
  | .notAnInteger text =>
    "invalid literal for int() with base 10: " ++
      String.ofList (text.quoted.take quoteLimit)
  | .numeralTooLong digits =>
    "Exceeds the limit (" ++ toString digitLimit ++
      " digits) for integer string conversion: value has " ++ toString digits ++
      " digits; use sys.set_int_max_str_digits() to increase the limit"
  | .integerTooLarge => "int too large to convert to float"
  | .infiniteNotInteger => "cannot convert float infinity to integer"
  | .undefinedNotInteger => "cannot convert float NaN to integer"
  | .zeroDivisor => "float division by zero"
  | .notNumeric => "not a number or a numeral"
  | .decimalOutOfRange => "decimal out of range"
  | .decimalOverflow => "decimal exponent too large"
  | .noUnit => "no unit is given"
  | .noText => "no names are given"
  | .tooDeep => "values are nested too deeply"
  | .notListening => "nobody listens"
  | .undecodable => "text is not UTF-8"
  | .pathBroken => "embedded null byte"
  | .unencodable => "text has no UTF-8 form"
  | .countersMissing path =>
    "Network counters not found at " ++ path ++ ". This source only works on Linux."
  | .reported message => message

end TrafficIndicator
