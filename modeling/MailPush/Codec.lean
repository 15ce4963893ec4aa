import MailPush.Wire.Ping

set_option autoImplicit false

/-! # Codecs

A codec writes requests as bytes and reads responses from them. The byte layout is not fixed
by the ping operation; `Codec.json` is the codec of the JSON forms.
-/

namespace MailPush

open Json

/-- How a codec can fail. -/
inductive CodecError where
  /-- The request could not be written. -/
  | encode (reason : String)
  /-- The body could not be read. -/
  | decode (reason : String)
deriving DecidableEq

/-- The text of a failure. -/
def CodecError.message : CodecError → String
  | encode reason => "Failed to encode request: " ++ reason
  | decode reason => "Failed to decode response: " ++ reason

/-- Writes requests and reads the bodies of responses. -/
structure Codec where
  encode : Request → Except CodecError Bytes
  decode : Bytes → Except CodecError Response

/-- Requests and responses in JSON; a body that is no response is reported by the category of its
first fault. -/
def Codec.json : Codec where
  encode request := .ok (bytesOf (Json.encode request))
  decode body := (Json.decode body).mapError fun fault => .decode fault.category

/-- A codec that writes no request. -/
def Codec.refusing (codec : Codec) (reason : String) : Codec :=
  { codec with encode := fun _ => .error (.encode reason) }

end MailPush
