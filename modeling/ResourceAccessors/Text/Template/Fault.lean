import ResourceAccessors.Text.Quoted

/-! Why a message template cannot be filled. -/
namespace ResourceAccessors.Text
set_option autoImplicit false

/-- A fault of a template or of its arguments. A conversion is the letter at the end of a slot, and
`kind` is that of the argument it does not take. -/
inductive TemplateFault where
  | tooFewArguments
  | tooManyArguments
  | noRecord
  | openKey
  | unknownKey (key : String)
  | amountNotInteger
  | widthTooLarge
  | precisionTooLarge
  | givenWidthTooLarge
  | givenPrecisionTooLarge
  | digitsTooMany
  | incomplete
  | unknownConversion (conversion : Char) (index : Nat)
  | noNumber (conversion : Char) (kind : String)
  | noInteger (conversion : Char) (kind : String)
  | noReal (kind : String)
  | noCharacter
  | characterOutOfRange
  | integerTooLarge
  | infiniteInteger
  | undefinedInteger
  | outOfMemory
  deriving DecidableEq

namespace TemplateFault

/-- A conversion as complaints show it: only characters of ASCII are shown. -/
def shownConversion (c : Char) : Char :=
  if 31 ≤ c.toNat && c.toNat ≤ 126 then c else '?'

def message : TemplateFault → String
  | tooFewArguments => "not enough arguments for format string"
  | tooManyArguments => "not all arguments converted during string formatting"
  | noRecord => "format requires a mapping"
  | openKey => "incomplete format key"
  | unknownKey key => Text.quoted key
  | amountNotInteger => "* wants int"
  | widthTooLarge => "width too big"
  | precisionTooLarge => "precision too big"
  | givenWidthTooLarge => "Python int too large to convert to C ssize_t"
  | givenPrecisionTooLarge => "Python int too large to convert to C int"
  | digitsTooMany => "precision too large"
  | incomplete => "incomplete format"
  | unknownConversion c index =>
    let code := String.ofList (Nat.toDigits 16 c.toNat)
    s!"unsupported format character '{shownConversion c}' (0x{code}) at index {index}"
  | noNumber c kind => s!"%{c} format: a real number is required, not {kind}"
  | noInteger c kind => s!"%{c} format: an integer is required, not {kind}"
  | noReal kind => s!"must be real number, not {kind}"
  | noCharacter => "%c requires int or char"
  | characterOutOfRange => "%c arg not in range(0x110000)"
  | integerTooLarge => "int too large to convert to float"
  | infiniteInteger => "cannot convert float infinity to integer"
  | undefinedInteger => "cannot convert float NaN to integer"
  | outOfMemory => ""

end TemplateFault

end ResourceAccessors.Text
