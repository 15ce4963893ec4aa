import MailPush.Time.Span

set_option autoImplicit false

/-! # Failures of the transport -/

namespace MailPush

/-- How a ping can fail before it yields a usable response. -/
inductive TransportError where
  /-- No response arrived before the deadline. -/
  | timedOut (after : Span)
  /-- The connection failed. -/
  | connection (reason : String)
  /-- The server answered with an empty body. -/
  | emptyBody
  /-- The body could not be decoded. -/
  | unusable (reason : String)
deriving DecidableEq

/-- The text of a failure. -/
def TransportError.message : TransportError → String
  | timedOut after => "Request timed out after " ++ after.text
  | connection reason => "Connection failed: " ++ reason
  | emptyBody => "Server returned an empty body"
  | unusable reason => "Unusable response: " ++ reason

end MailPush
