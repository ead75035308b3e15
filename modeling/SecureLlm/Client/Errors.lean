import Mathlib.Data.Rat.Defs
import SecureLlm.Protocol.Errors

/-!
# The Client's Errors

What the client raises. An error has a class, a code and a message. The code is the
one it was made with, or that of its class, and so is a message that is empty. An
error that the server reports becomes one of the class for its code.

An error that the server reports is what its body parses to, so a message or an
identifier can be any JSON value.

## Main definitions

* `Json`: What a body parses to.
* `ErrorClass`: The classes of errors.
* `SecureLLMError`: An error.
* `fromErrorEnvelope`: The error for what the server reports.
* `Raised`: Whatever a call of the client raises.
* `Raised.typed`: Is it an error of the client's own?

## Theorems

* `fromErrorEnvelope_code`: It carries the code that was reported.
-/

namespace SecureLlm

/-- A JSON value. Numbers are kept by their value. -/
inductive Json where
  | null
  | bool (value : Bool)
  | number (value : ℚ)
  | string (text : String)
  | array (items : List Json)
  | object (fields : List (String × Json))

namespace Json

/-- `bool(value)`. -/
def truthy : Json → Bool
  | .null => false
  | .bool value => value
  | .number value => value ≠ 0
  | .string text => text ≠ ""
  | .array items => !items.isEmpty
  | .object fields => !fields.isEmpty

/-- `fields.get(key)`. -/
def field (fields : List (String × Json)) (key : String) : Option Json :=
  (fields.find? fun entry => entry.1 = key).map Prod.snd

end Json

namespace Client

/-- The classes of errors. -/
inductive ErrorClass where
  | secureLLMError | authError | handshakeFailed | serverKeyMismatch | sessionExpired
  | adminRequiredError | rateLimited | queueFull | modelNotFound | downloadFailed
  deriving DecidableEq

/-- The code of a class. -/
def ErrorClass.code : ErrorClass → ErrorCode
  | .secureLLMError => .internalError
  | .authError => .badSignature
  | .handshakeFailed => .badSignature
  | .serverKeyMismatch => .serverKeyMismatch
  | .sessionExpired => .sessionExpired
  | .adminRequiredError => .adminRequired
  | .rateLimited => .rateLimited
  | .queueFull => .queueFull
  | .modelNotFound => .modelNotFound
  | .downloadFailed => .downloadFailed

/-- An error. -/
structure SecureLLMError where
  errorClass : ErrorClass
  message : Json
  code : ErrorCode
  errorId : Json
  retryAfter : Json

/-- The constructor. -/
def SecureLLMError.new (errorClass : ErrorClass) (message : Json) (code : Option ErrorCode)
    (errorId : Json) : SecureLLMError where
  errorClass := errorClass
  message := if message.truthy then message else .string (code.getD errorClass.code).value
  code := code.getD errorClass.code
  errorId := errorId
  retryAfter := .null

/-- The class for a code. -/
def byCode : ErrorCode → ErrorClass
  | .badSignature => .handshakeFailed
  | .serverKeyMismatch => .serverKeyMismatch
  | .sessionExpired => .sessionExpired
  | .adminRequired => .adminRequiredError
  | .scopeDenied => .adminRequiredError
  | .rateLimited => .rateLimited
  | .queueFull => .queueFull
  | .modelNotFound => .modelNotFound
  | .downloadFailed => .downloadFailed
  | .unknownClient => .handshakeFailed
  | .clientRevoked => .handshakeFailed
  | .clientExpired => .handshakeFailed
  | .clientNotYetValid => .handshakeFailed
  | .clockSkew => .handshakeFailed
  | _ => .secureLLMError

/-- The error for what the server reports. -/
def fromErrorEnvelope (code : ErrorCode) (message errorId retryAfter : Json) : SecureLLMError :=
  if byCode code = .rateLimited then
    { SecureLLMError.new .rateLimited message none errorId with retryAfter := retryAfter }
  else SecureLLMError.new (byCode code) message (some code) errorId

/-- It carries the code that was reported. -/
theorem fromErrorEnvelope_code (code : ErrorCode) (message errorId retryAfter : Json) :
    (fromErrorEnvelope code message errorId retryAfter).code = code := by
  cases code <;> rfl

/-- Whatever a call raises: an error of the client's own, an exception of what it
    calls, or one of the language. -/
inductive Raised where
  | error (e : SecureLLMError)
  | exc (e : Exc)
  | attributeError
  | typeError

/-- The error is a `SecureLLMError`, of that class or a subclass. Those of the
    handshake are named by their class. -/
def Raised.typed : Raised → Bool
  | .error _ => true
  | .exc (.handshakeFailed _) => true
  | .exc (.serverKeyMismatch _) => true
  | _ => false

/-- `SecureLLMError(message, code=code)`. -/
def raiseError (message : String) (code : ErrorCode) : Raised :=
  .error (SecureLLMError.new .secureLLMError (.string message) (some code) .null)

end Client

end SecureLlm
