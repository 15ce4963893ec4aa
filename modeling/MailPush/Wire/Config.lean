import MailPush.Policy
import MailPush.Json.Record
import MailPush.Json.Writer

set_option autoImplicit false

/-! # The configuration and its JSON form

The configuration is the heartbeat policy. Every member of both may be missing and then has
its standard value.
-/

namespace MailPush

open Json

/-- The configuration of the ping operation. -/
structure PushConfig where
  heartbeat : Policy
deriving DecidableEq

/-- The configuration with the standard policy. -/
def PushConfig.standard : PushConfig := ⟨.standard⟩

/-! ## Policies -/

/-- A policy of which some members have been read. -/
structure Policy.Draft where
  defaultSecs : Option UInt64
  minSecs : Option UInt64
  maxSecs : Option UInt64
  maxStepSecs : Option UInt64
  requestSlackSecs : Option UInt64

/-- The shape of a policy. -/
def Policy.shape : Shape Policy.Draft Policy where
  members :=
    [.ofSlot "default_secs" (·.defaultSecs) fun v d => { d with defaultSecs := some v },
     .ofSlot "min_secs" (·.minSecs) fun v d => { d with minSecs := some v },
     .ofSlot "max_secs" (·.maxSecs) fun v d => { d with maxSecs := some v },
     .ofSlot "max_step_secs" (·.maxStepSecs) fun v d => { d with maxStepSecs := some v },
     .ofSlot "request_slack_secs" (·.requestSlackSecs)
       fun v d => { d with requestSlackSecs := some v }]
  blank := ⟨none, none, none, none, none⟩
  finish d :=
    let std := Policy.standard
    some ⟨d.defaultSecs.getD std.defaultSecs, d.minSecs.getD std.minSecs,
      d.maxSecs.getD std.maxSecs, d.maxStepSecs.getD std.maxStepSecs,
      d.requestSlackSecs.getD std.requestSlackSecs⟩

instance : Readable Policy := ⟨Policy.shape.reader⟩

instance : Writable Policy :=
  ⟨fun p => writeObject
    [("default_secs", Writable.write p.defaultSecs), ("min_secs", Writable.write p.minSecs),
     ("max_secs", Writable.write p.maxSecs), ("max_step_secs", Writable.write p.maxStepSecs),
     ("request_slack_secs", Writable.write p.requestSlackSecs)]⟩

/-! ## Configurations -/

/-- A configuration of which some members have been read. -/
structure PushConfig.Draft where
  heartbeat : Option Policy

/-- The shape of a configuration. -/
def PushConfig.shape : Shape PushConfig.Draft PushConfig where
  members := [.ofSlot "heartbeat" (·.heartbeat) fun v _ => ⟨some v⟩]
  blank := ⟨none⟩
  finish d := some ⟨d.heartbeat.getD PushConfig.standard.heartbeat⟩

instance : Readable PushConfig := ⟨PushConfig.shape.reader⟩

instance : Writable PushConfig :=
  ⟨fun c => writeObject [("heartbeat", Writable.write c.heartbeat)]⟩

end MailPush
