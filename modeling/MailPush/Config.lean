import MailPush.Error
import MailPush.FileSystem
import MailPush.Wire.Config

set_option autoImplicit false

/-! # Reading configurations

A configuration is accepted when its text decodes and its policy is consistent. A file that
does not exist means the standard configuration.
-/

namespace MailPush.PushConfig

/-- Refuses a configuration whose policy breaks a rule. -/
def check (config : PushConfig) : Except Error Unit :=
  match config.heartbeat.problem with
  | some problem => .error (.config problem.message)
  | none => .ok ()

/-- The configuration of a JSON text. -/
def ofJson (text : String) : Except Error PushConfig := do
  let config ← (Json.decode (bytesOf text) : Except _ PushConfig).mapError .json
  config.check
  return config

/-- The configuration of a file. -/
def load : PathEntry Bytes → Except Error PushConfig
  | .missing | .missingParent => .ok standard
  | .directory => .error (.io .isDirectory)
  | .parentIsFile => .error (.io .notDirectory)
  | .file content =>
    match textOf? content with
    | some text => ofJson text
    | none => .error (.io .notText)

end MailPush.PushConfig
