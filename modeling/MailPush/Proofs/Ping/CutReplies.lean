import MailPush.Proofs.Ping.WriteLog
import MailPush.Proofs.Wire.RoundTrip

set_option autoImplicit false

/-! # Replies that are cut short or too long

A connection may break while the body of a response is on its way, or yield bytes beyond the body.
No front of a written response is one itself, not even one that ends inside a number, an escape or
a character, and neither is a response with anything but blanks behind it. A call that gets such a
reply fails, and takes the heartbeat back as after any other failure (`BacksOff`).
-/

namespace MailPush

open Json

/-! ## Bodies -/

theorem Codec.json_of_fault {body : Bytes} {fault : Fault}
    (h : (Json.decode body : Except _ Response) = .error fault) :
    Codec.json.decode body = .error (.decode fault.category) := by
  show (Json.decode body : Except _ Response).mapError _ = _
  rw [h]
  rfl

theorem decode_front {r : Response} {front : Bytes} (h : Cut front (bytesOf (encode r))) :
    Codec.json.decode front = .error (.decode "eof") := by
  rw [encode, bytesOf_ofList] at h
  exact Codec.json_of_fault (decode_cut (delimits_response r) h)

theorem decode_beyond {r : Response} {more : Bytes} (h : ∃ b ∈ more, isBlank b = false) :
    Codec.json.decode (bytesOf (encode r) ++ more) = .error (.decode "syntax") := by
  obtain ⟨b, hmem, hb⟩ := h
  rw [encode, bytesOf_ofList]
  exact Codec.json_of_fault (decode_append (delimits_response r) hmem hb)

/-! ## Calls -/

namespace Ping

variable {σ : Type} {env : Collaborators σ} {ping : Ping} {x : Exchange} {world : σ}
  {folders : List Folder} {request : Request} {payload : Bytes}

/-- The heartbeat of an operation, one step lower as far as the policy allows. -/
def loweredSecs (ping : Ping) : UInt64 :=
  ping.heartbeat.policy.clamp (saturatingSub ping.heartbeat.secs ping.heartbeat.policy.maxStepSecs)

/-- A call fails: its caller is told the failure and is left no work, and the lowered heartbeat is
all that changes in the operation and all that is written, once. -/
structure BacksOff (env : Collaborators σ) (ping : Ping) (x : Exchange) (world : σ)
    (failure : TransportError) : Prop where
  result_eq : (run env ping x world).result = .ok (.operationFailure failure)
  ping_eq : (run env ping x world).ping
    = ⟨ping.account, ⟨ping.heartbeat.policy, ping.loweredSecs⟩⟩
  world_eq : (run env ping x world).world
    = (env.heartbeats.store ping.account ping.loweredSecs
        (env.registry.folders ping.account world).world).world
  writes_eq : ∀ log, ∃ taken, (run env.logged ping x (world, log)).world.2
    = log ++ [⟨ping.account, ping.loweredSecs, taken⟩]

/-- A log is kept beside a call whose request is made ready, which makes it ready as well. -/
theorem Prepared.logged (h : Prepared env ping world folders request payload)
    (log : List Write) :
    Prepared env.logged ping (world, log) folders request payload :=
  ⟨h.folders_eq, h.request_eq, h.payload_eq⟩

/-- A call that gets no response backs off. -/
theorem backsOff_of_received {failure : TransportError}
    (hprep : Prepared env ping world folders request payload)
    (hx : x.received? env.codec ping.heartbeat.timeout = some (.error failure)) :
    BacksOff env ping x world failure := by
  have hrun := run_of_prepared hprep x
  rw [hx] at hrun
  constructor
  · rw [hrun, finish_result]
    rfl
  · rw [hrun, finish_ping]
    rfl
  · rw [hrun, finish_world]
    rfl
  · -- the same call is made beside the log, where it can be seen to write once
    intro log
    have hlogged := run_of_prepared (hprep.logged log) x
    rw [show env.logged.codec = env.codec from rfl, hx] at hlogged
    refine ⟨(env.heartbeats.store ping.account ping.loweredSecs
      (env.registry.folders ping.account world).world).result.isOk, ?_⟩
    rw [hlogged, finish_world]
    rfl

/-- A body that the codec does not read backs a call off. -/
theorem backsOff_of_unusable {bytes : Bytes} {e : CodecError}
    (hprep : Prepared env ping world folders request payload)
    (hreply : x.ending ping.heartbeat.timeout = .replied (.ok bytes)) (hne : bytes ≠ [])
    (hdecode : env.codec.decode bytes = .error e) :
    BacksOff env ping x world (.unusable e.message) := by
  refine backsOff_of_received hprep ?_
  rw [Exchange.received?, hreply]
  show some (receive env.codec (.ok bytes)) = _
  rw [receive_body _ hne, hdecode]
  rfl

/-- **A response that is cut short or has something behind it is not acted on**, wherever it is
cut and whatever follows it. The call that gets it backs off: for an empty body when nothing is
there of the response, for its end when only a front of it is there, and for what follows it
otherwise. -/
theorem not_acted_on (hcodec : env.codec = Codec.json)
    (hprep : Prepared env ping world folders request payload) (r : Response) :
    (x.ending ping.heartbeat.timeout = .replied (.ok []) →
      BacksOff env ping x world .emptyBody) ∧
    (∀ front, front <+: bytesOf (encode r) → front ≠ bytesOf (encode r) → front ≠ [] →
      x.ending ping.heartbeat.timeout = .replied (.ok front) →
      BacksOff env ping x world (.unusable "Failed to decode response: eof")) ∧
    (∀ more, (∃ b ∈ more, isBlank b = false) →
      x.ending ping.heartbeat.timeout = .replied (.ok (bytesOf (encode r) ++ more)) →
      BacksOff env ping x world (.unusable "Failed to decode response: syntax")) := by
  refine ⟨?_, ?_, ?_⟩
  · intro hreply
    refine backsOff_of_received hprep ?_
    rw [Exchange.received?, hreply]
    rfl
  · intro front hstart hcut hne hreply
    have hdecode : env.codec.decode front = .error (.decode "eof") := by
      rw [hcodec, decode_front ⟨hstart, hcut⟩]
    exact backsOff_of_unusable hprep hreply hne hdecode
  · intro more hmore hreply
    have hne : bytesOf (encode r) ++ more ≠ [] := by
      obtain ⟨b, hmem, -⟩ := hmore
      intro h
      rw [(List.append_eq_nil_iff.1 h).2] at hmem
      cases hmem
    have hdecode : env.codec.decode (bytesOf (encode r) ++ more) = .error (.decode "syntax") := by
      rw [hcodec, decode_beyond hmore]
    exact backsOff_of_unusable hprep hreply hne hdecode

/-- A status of two digits that is cut to one, and a closing bracket too many. A heartbeat of 900
seconds is taken back to 600, and one of 500, which is less than a step above the bound, to 480. -/
theorem not_acted_on_status_twelve :
    let env := Scripted.collaborators Codec.json
    let ping : Ping := ⟨⟨1⟩, ⟨.standard, 900⟩⟩
    let low : Ping := ⟨⟨1⟩, ⟨.standard, 500⟩⟩
    let cut : Exchange := ⟨.ok (bytesOf "\x7b\"status\":1"), some .zero, none⟩
    let body := bytesOf (encode (Response.ofStatus ⟨12⟩))
    (BacksOff env ping cut (watching none) (.unusable "Failed to decode response: eof") ∧
        ping.loweredSecs = 600) ∧
      (BacksOff env low cut (watching none) (.unusable "Failed to decode response: eof") ∧
        low.loweredSecs = 480) ∧
      BacksOff env ping ⟨.ok (body ++ bytesOf " \x7d"), some .zero, none⟩ (watching none)
        (.unusable "Failed to decode response: syntax") := by
  intro env ping low cut body
  have hprep : Prepared env ping (watching none) [⟨⟨1⟩, "inbox", .email, true, true⟩] _ _ :=
    ⟨rfl, rfl, rfl⟩
  have hlow : Prepared env low (watching none) [⟨⟨1⟩, "inbox", .email, true, true⟩] _ _ :=
    ⟨rfl, rfl, rfl⟩
  have hfront : bytesOf "\x7b\"status\":1" <+: body :=
    ⟨bytesOf "2,\"folders\":[],\"heartbeat_interval\":null,\"max_folders\":null\x7d", by decide⟩
  refine ⟨⟨?_, by decide⟩, ⟨?_, by decide⟩, ?_⟩
  · exact (not_acted_on rfl hprep (.ofStatus ⟨12⟩)).2.1 _ hfront (by decide) (by decide)
      (ending_at_once _ _)
  · exact (not_acted_on rfl hlow (.ofStatus ⟨12⟩)).2.1 _ hfront (by decide) (by decide)
      (ending_at_once _ _)
  · exact (not_acted_on rfl hprep (.ofStatus ⟨12⟩)).2.2 _ ⟨byte '}', by decide, by decide⟩
      (ending_at_once _ _)

end Ping

end MailPush
