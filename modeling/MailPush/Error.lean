import MailPush.Account
import MailPush.Codec
import MailPush.Store.Error
import MailPush.TransportError

set_option autoImplicit false

/-! # Errors

An error aborts the call that meets it. Failures of the transport and statuses of the server
are no errors of a ping; they are among its outcomes. An error may wrap another one, and its
text then ends with the text of what it wraps (`Error.message`); `Error.sources` lists what is
wrapped, from the outside in.
-/

namespace MailPush

/-- What an error wraps that is not an error of the same kind. -/
inductive Cause where
  | io (error : FileError)
  | codec (error : CodecError)
  | transport (error : TransportError)
  | store (error : StoreError)
  | json (fault : Json.Fault)
deriving DecidableEq

/-- The text of a cause. Of a fault in a JSON text it is the category alone; what the reader of the
text says beyond it, and where, is left out. -/
def Cause.message : Cause → String
  | io error => error.message
  | codec error => error.message
  | transport error => error.message
  | store error => error.message
  | json fault => fault.category

/-- Why a call failed. -/
inductive Error where
  /-- The folders of an account could not be read. -/
  | metadataUnavailable (account : AccountId) (source : Error)
  /-- The request could not be written. -/
  | encode (error : CodecError)
  /-- A store or registry failed. -/
  | storage (cause : Cause)
  /-- A store or registry failed with an error of this kind. -/
  | storageOf (source : Error)
  /-- A configuration is inconsistent. -/
  | config (reason : String)
  /-- A text is not what it should be. -/
  | json (fault : Json.Fault)
  /-- A file could not be used. -/
  | io (error : FileError)
deriving DecidableEq

namespace Error

/-- The text of an error. A fault in a JSON text is shown by its category alone. -/
def message : Error → String
  | metadataUnavailable account source =>
    "Folder metadata unavailable for account " ++ account.text ++ ": " ++ source.message
  | encode error => "Encode error: " ++ error.message
  | storage cause => "Storage error: " ++ cause.message
  | storageOf source => "Storage error: " ++ source.message
  | config reason => "Configuration error: " ++ reason
  | json fault => "Serialization error: " ++ fault.category
  | io error => "I/O error: " ++ error.message

/-- An error, or what stands at the bottom of one. -/
inductive Source where
  | error (e : Error)
  | cause (c : Cause)
deriving DecidableEq

/-- The text of a source. -/
def Source.message : Source → String
  | .error e => e.message
  | .cause c => c.message

/-- What an error wraps, directly and indirectly, from the outside in. What a failure of the store
wraps in turn is left out. -/
def sources : Error → List Source
  | metadataUnavailable _ source => .error source :: source.sources
  | encode error => [.cause (.codec error)]
  | storage cause => [.cause cause]
  | storageOf source => .error source :: source.sources
  | config _ => []
  | json fault => [.cause (.json fault)]
  | io error => [.cause (.io error)]

end Error

end MailPush
