set_option autoImplicit false

/-! # Accounts -/

namespace MailPush

/-- The identity of an account. Each account owns its heartbeat, its folders and its queue of
sync requests; nothing is shared between accounts. -/
structure AccountId where
  number : Int64
deriving DecidableEq

namespace AccountId

/-- An account is written as its number. -/
def text (account : AccountId) : String := toString account.number.toInt

instance : ToString AccountId := ⟨text⟩

end AccountId

end MailPush
