import MailPush.Bytes
import MailPush.TransportError

set_option autoImplicit false

/-! # Exchanges with the server

What the transport and the caller do during one ping: when the reply arrives and when the
caller gives up, counted from the moment the ping is sent. An exchange against a deadline ends
with whichever comes first (`Exchange.ending`). Giving up wins a tie with the reply and with
the deadline, and the reply wins a tie with the deadline.
-/

namespace MailPush

/-- The course of one exchange. -/
structure Exchange where
  /-- What the transport yields. -/
  reply : Except TransportError Bytes
  /-- When it yields that, if ever. -/
  replyAfter : Option Span
  /-- When the caller gives up, if ever. -/
  cancelAfter : Option Span

/-- How an exchange ends. -/
inductive Ending where
  | cancelled
  | replied (reply : Except TransportError Bytes)
  | timedOut

namespace Exchange

/-- Whether something happens no later than a given moment. -/
def happensBy : Option Span → Span → Bool
  | none, _ => false
  | some t, limit => t ≤ limit

/-- Whether the reply arrives no later than the deadline. -/
def repliesBy (x : Exchange) (deadline : Span) : Bool := happensBy x.replyAfter deadline

/-- Whether the caller gives up no later than the reply and the deadline. -/
def cancelsBy (x : Exchange) (deadline : Span) : Bool :=
  happensBy x.cancelAfter deadline &&
    match x.replyAfter with
    | none => true
    | some t => happensBy x.cancelAfter t

/-- How an exchange ends against a deadline. -/
def ending (x : Exchange) (deadline : Span) : Ending :=
  if x.cancelsBy deadline then .cancelled
  else if x.repliesBy deadline then .replied x.reply
  else .timedOut

/-- Whether anything is sent: not when the caller has given up before. -/
def isSent (x : Exchange) : Bool := !happensBy x.cancelAfter .zero

end Exchange

end MailPush
