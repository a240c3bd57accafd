namespace StatsDaemon.Text

inductive IntegerFault where
  | empty
  | invalidDigit
  | tooLarge
  deriving DecidableEq, Repr

def IntegerFault.message : IntegerFault → String
  | .empty => "cannot parse integer from empty string"
  | .invalidDigit => "invalid digit found in string"
  | .tooLarge => "number too large to fit in target type"

def readDigits (limit : Nat) : Nat → List Char → Except IntegerFault Nat
  | n, [] => .ok n
  | n, c :: rest =>
    if !c.isDigit then .error .invalidDigit
    else
      let next := 10 * n + (c.toNat - '0'.toNat)
      if limit < next then .error .tooLarge else readDigits limit next rest

def readNatural (limit : Nat) (text : List Char) : Except IntegerFault Nat :=
  match text with
  | [] => .error .empty
  | ['+'] => .error .invalidDigit
  | '+' :: rest => readDigits limit 0 rest
  | text => readDigits limit 0 text

def readWord64 (text : List Char) : Except IntegerFault Nat :=
  readNatural 0xffffffffffffffff text

def readInteger64? (text : List Char) : Option Int :=
  match text with
  | ['-'] => none
  | '-' :: rest => ((readDigits 0x8000000000000000 0 rest).toOption).map fun n => -(n : Int)
  | text => ((readNatural 0x7fffffffffffffff text).toOption).map Int.ofNat

end StatsDaemon.Text
