import MailPush.Codec
import MailPush.Proofs.Wire.RoundTrip

set_option autoImplicit false

/-! # Requests on the wire

The library writes requests and never reads one; the server does. Here a request is read as an
object with a heartbeat and a list of folders, both of which are required (`Request.shape`), and
every request is read from its payload (`delimits_request`). The server ids in it may be any texts:
what is written of a text shows where it ends, and so does what is written of a folder and of a list
of folders.

So the payload of a request says which one it is, and is not even the beginning of another payload
(`request_payloads_distinct`).
-/

namespace MailPush

open Json

namespace Json

/-- Of two texts that show where they end, one is the beginning of the other only if they are the
same. -/
theorem Delimits.eq_of_front {α : Type} {read : Bytes → Except Fault (α × Bytes)}
    {text text' : Bytes} {a a' : α} (h : Delimits read text a) (h' : Delimits read text' a')
    (hfront : text <+: text') : text = text' := by
  by_cases heq : text = text'
  · exact heq
  · -- the shorter text would be read in full, and ask for more
    have hwhole := h.whole []
    rw [List.append_nil, h'.cut text ⟨hfront, heq⟩] at hwhole
    cases hwhole

/-- Different values of a lawful type are written differently. -/
theorem bytesOf_encode_inj {α : Type} [Readable α] [Writable α] [Lawful α] {a b : α} :
    bytesOf (encode a) = bytesOf (encode b) ↔ a = b := by
  refine ⟨fun h => ?_, fun h => by rw [h]⟩
  have hdecode := decode_encode a
  rw [h, decode_encode b] at hdecode
  exact (Except.ok.inj hdecode).symm

end Json

/-! ## Reading a request -/

/-- A request of which some members have been read. -/
structure Request.Draft where
  heartbeatSecs : Option UInt64
  folders : Option (List WatchedFolder)

/-- The shape of a request. -/
def Request.shape : Shape Request.Draft Request where
  members :=
    [.ofSlot "heartbeat_secs" (·.heartbeatSecs) fun v d => { d with heartbeatSecs := some v },
     .ofSlot "folders" (·.folders) fun v d => { d with folders := some v }]
  blank := ⟨none, none⟩
  finish d := do Request.build? (← d.heartbeatSecs) (← d.folders)

instance : Readable Request := ⟨Request.shape.reader⟩

theorem Request.build?_eq_some_iff {secs : UInt64} {folders : List WatchedFolder} {r : Request} :
    Request.build? secs folders = some r ↔ r.heartbeatSecs = secs ∧ r.folders = folders := by
  constructor
  · intro h
    rw [build?] at h
    split at h
    · cases h
    · cases h
      exact ⟨rfl, rfl⟩
  · rintro ⟨rfl, rfl⟩
    exact dif_neg r.folders_ne_nil

instance : Lawful (List WatchedFolder) :=
  ⟨fun folders => (delimits_list (by decide : isBlank (byte '{') = false) (by decide)
    (fun f => ⟨_, utf8_writeObject _, utf8_writeObject _ ▸ (delimits_watchedFolder f).reads⟩)
    folders).reads⟩

/-- **A request is read from its payload**, whatever the texts in it are. -/
theorem delimits_request (r : Request) :
    Delimits Request.shape.reader.run (utf8 (Writable.write r)) r :=
  delimits_object (.slot rfl rfl (.slot rfl rfl .nil)) (Request.build?_eq_some_iff.2 ⟨rfl, rfl⟩)

instance : Lawful Request := ⟨fun r => (delimits_request r).reads⟩

/-- **No two different requests look alike on the wire.** Of any two requests, for any heartbeats
and any folders with any texts as their server ids:

* the payloads are equal, as bytes and as texts, exactly when the heartbeats and the lists of
  folders are equal;
* neither payload is the beginning of the other one, unless they are equal;
* and each is read as the request of its own heartbeat and folders. -/
theorem request_payloads_distinct {secs secs' : UInt64} {folders folders' : List WatchedFolder}
    {r r' : Request} (h : Request.build? secs folders = some r)
    (h' : Request.build? secs' folders' = some r') :
    ∃ payload payload', Codec.json.encode r = .ok payload ∧ Codec.json.encode r' = .ok payload' ∧
      (payload = payload' ↔ secs = secs' ∧ folders = folders') ∧
      (encode r = encode r' ↔ secs = secs' ∧ folders = folders') ∧
      (payload <+: payload' → payload = payload') ∧
      decode payload = .ok r ∧ decode payload' = .ok r' := by
  have hsame : r = r' ↔ secs = secs' ∧ folders = folders' := by
    obtain ⟨rfl, rfl⟩ := Request.build?_eq_some_iff.1 h
    obtain ⟨rfl, rfl⟩ := Request.build?_eq_some_iff.1 h'
    obtain ⟨_, _, _⟩ := r
    obtain ⟨_, _, _⟩ := r'
    exact Request.mk.injEq .. ▸ Iff.rfl
  refine ⟨_, _, rfl, rfl, bytesOf_encode_inj.trans hsame, ?_, ?_, decode_encode r,
    decode_encode r'⟩
  · refine ⟨fun htext => ?_, fun heq => congrArg encode (hsame.2 heq)⟩
    exact hsame.1 (bytesOf_encode_inj.1 (congrArg bytesOf htext))
  · rw [encode, encode, bytesOf_ofList, bytesOf_ofList]
    exact (delimits_request r).eq_of_front (delimits_request r')

/-- A server id that spells the end of one folder and the beginning of the next makes no two folders
of one. -/
theorem request_payloads_distinct_forged :
    let forged : List WatchedFolder :=
      [⟨"a\",\"class\":\"Email\"\x7d,\x7b\"server_id\":\"b", .email⟩]
    let two : List WatchedFolder := [⟨"a", .email⟩, ⟨"b", .email⟩]
    ∃ r r' payload payload', Request.build? 480 forged = some r ∧
      Request.build? 480 two = some r' ∧ Codec.json.encode r = .ok payload ∧
      Codec.json.encode r' = .ok payload' ∧ payload ≠ payload' ∧ decode payload = .ok r := by
  intro forged two
  have hforged : Request.build? 480 forged = some ⟨480, forged, List.cons_ne_nil _ _⟩ := rfl
  have htwo : Request.build? 480 two = some ⟨480, two, List.cons_ne_nil _ _⟩ := rfl
  obtain ⟨payload, payload', hpayload, hpayload', hiff, -, -, hread, -⟩ :=
    request_payloads_distinct hforged htwo
  refine ⟨_, _, payload, payload', hforged, htwo, hpayload, hpayload', fun heq => ?_, hread⟩
  exact absurd (hiff.1 heq).2 (by decide)

end MailPush
