import MailPush.Proofs.Ping.Calls
import MailPush.Proofs.Wire.RoundTrip

set_option autoImplicit false

/-! # Which configurations are accepted

The rules for a policy as a table, in the order in which they are checked (`Policy.rules`), and the
message of the first one that a policy breaks (`Policy.firstBreach`). Reading a text, loading a
file and starting an operation refuse exactly the policies with such a message, and with that
message (`acceptance`). A configuration of a consistent policy is returned for some text, since it
is read from its own encoding.
-/

namespace MailPush

/-! ## The rules -/

namespace Policy

/-- A rule for policies. -/
structure Rule where
  /-- Whether a policy breaks this rule. -/
  broken : Policy → Bool
  /-- What is then said about the policy. -/
  message : Policy → String

/-- The rules, in the order in which they are checked. -/
def rules : List Rule :=
  [⟨fun p => p.minSecs = 0, fun _ => "heartbeat min_secs must be positive"⟩,
   ⟨fun p => p.maxSecs < p.minSecs, fun p =>
      "heartbeat min_secs (" ++ toString p.minSecs.toNat ++ ") exceeds max_secs (" ++
        toString p.maxSecs.toNat ++ ")"⟩,
   ⟨fun p => p.defaultSecs < p.minSecs ∨ p.maxSecs < p.defaultSecs, fun p =>
      "heartbeat default_secs (" ++ toString p.defaultSecs.toNat ++ ") outside [" ++
        toString p.minSecs.toNat ++ ", " ++ toString p.maxSecs.toNat ++ "]"⟩,
   ⟨fun p => p.maxStepSecs = 0, fun _ => "heartbeat max_step_secs must be positive"⟩,
   ⟨fun p => p.requestSlackSecs = 0, fun _ => "request_slack_secs must be positive"⟩]

/-- The message of the first of some rules that a policy breaks. -/
def breachOf (p : Policy) (rules : List Rule) : Option String :=
  (rules.find? fun rule => rule.broken p).map fun rule => rule.message p

/-- The message of the first rule that a policy breaks. -/
def firstBreach (p : Policy) : Option String := p.breachOf rules

theorem breachOf_cons (p : Policy) (rule : Rule) (others : List Rule) :
    p.breachOf (rule :: others)
      = if rule.broken p then some (rule.message p) else p.breachOf others := by
  by_cases h : rule.broken p = true
  · simp only [breachOf, List.find?_cons, h, if_true, Option.map_some]
  · simp only [breachOf, List.find?_cons, h, Bool.false_eq_true, if_false]

theorem firstBreach_eq (p : Policy) : p.firstBreach = p.problem.map Problem.message := by
  simp only [firstBreach, rules, breachOf_cons, decide_eq_true_eq, problem,
    apply_ite (Option.map _), Option.map_some, Option.map_none]
  rfl

theorem firstBreach_eq_none_iff {p : Policy} : p.firstBreach = none ↔ p.Valid := by
  rw [firstBreach_eq, Option.map_eq_none_iff, problem_eq_none_iff]

end Policy

/-- A refused operation has not used its store. -/
theorem Ping.start_of_breach {σ : Type} (store : HeartbeatStore σ) (account : AccountId)
    {config : PushConfig} {message : String} (h : config.heartbeat.firstBreach = some message)
    (world : σ) : start store account config world = ⟨.error (.config message), world, []⟩ := by
  rw [Policy.firstBreach_eq] at h
  obtain ⟨problem, hp, rfl⟩ := Option.map_eq_some_iff.1 h
  rw [start, PushConfig.check, hp]

/-! ## Texts and files -/

namespace PushConfig

open Policy (Setting writeSettings)

/-- The ways in which the reading of a text can end. -/
theorem ofJson_cases (text : String) :
    (∃ config : PushConfig, Json.decode (bytesOf text) = .ok config ∧ config.heartbeat.Valid ∧
      ofJson text = .ok config) ∨
    (∃ (config : PushConfig) (message : String), Json.decode (bytesOf text) = .ok config ∧
      config.heartbeat.firstBreach = some message ∧ ofJson text = .error (.config message)) ∨
    (∃ fault, (Json.decode (bytesOf text) : Except _ PushConfig) = .error fault ∧
      ofJson text = .error (.json fault)) := by
  cases hd : (Json.decode (bytesOf text) : Except _ PushConfig) with
  | error fault =>
      refine .inr (.inr ⟨fault, rfl, ?_⟩)
      rw [ofJson, hd]
      rfl
  | ok config =>
      have hjson : ofJson text = config.check >>= fun _ => .ok config := by
        rw [ofJson, hd]
        rfl
      cases hp : config.heartbeat.problem with
      | some problem =>
          have hb : config.heartbeat.firstBreach = some problem.message := by
            rw [Policy.firstBreach_eq, hp, Option.map_some]
          refine .inr (.inl ⟨config, problem.message, rfl, hb, ?_⟩)
          rw [hjson, check, hp]
          rfl
      | none =>
          refine .inl ⟨config, rfl, Policy.problem_eq_none_iff.1 hp, ?_⟩
          rw [hjson, check, hp]
          rfl

variable {text : String} {config : PushConfig}

theorem ofJson_eq_ok_iff :
    ofJson text = .ok config
      ↔ Json.decode (bytesOf text) = .ok config ∧ config.heartbeat.Valid := by
  rcases ofJson_cases text with ⟨read, hd, hv, h⟩ | ⟨read, message, hd, hb, h⟩ | ⟨fault, hd, h⟩
  · rw [h, hd]
    constructor
    · rintro ⟨⟩
      exact ⟨rfl, hv⟩
    · rintro ⟨⟨⟩, -⟩
      rfl
  · -- a policy that keeps the rules has no message
    rw [h, hd]
    refine ⟨nofun, ?_⟩
    rintro ⟨⟨⟩, hv⟩
    rw [Policy.firstBreach_eq_none_iff.2 hv] at hb
    cases hb
  · rw [h, hd]
    exact ⟨nofun, fun hread => nomatch hread.1⟩

theorem ofJson_eq_config_iff {message : String} :
    ofJson text = .error (.config message)
      ↔ ∃ config : PushConfig, Json.decode (bytesOf text) = .ok config ∧
          config.heartbeat.firstBreach = some message := by
  rcases ofJson_cases text with ⟨read, hd, hv, h⟩ | ⟨read, message', hd, hb, h⟩ | ⟨fault, hd, h⟩
  · rw [h, hd]
    refine ⟨nofun, ?_⟩
    rintro ⟨_, ⟨⟩, hb⟩
    rw [Policy.firstBreach_eq_none_iff.2 hv] at hb
    cases hb
  · rw [h, hd]
    constructor
    · rintro ⟨⟩
      exact ⟨read, rfl, hb⟩
    · rintro ⟨_, ⟨⟩, hb'⟩
      rw [hb] at hb'
      cases hb'
      rfl
  · rw [h, hd]
    exact ⟨nofun, fun ⟨_, hread, _⟩ => nomatch hread⟩

theorem ofJson_eq_json_iff {fault : Json.Fault} :
    ofJson text = .error (.json fault)
      ↔ (Json.decode (bytesOf text) : Except _ PushConfig) = .error fault := by
  rcases ofJson_cases text with ⟨read, hd, -, h⟩ | ⟨read, message, hd, -, h⟩ | ⟨fault', hd, h⟩
  · rw [h, hd]
    exact ⟨nofun, nofun⟩
  · rw [h, hd]
    exact ⟨nofun, nofun⟩
  · rw [h, hd]
    constructor
    · rintro ⟨⟩
      rfl
    · rintro ⟨⟩
      rfl

/-- A configuration with some members of its policy, as it is written. -/
def writePart (settings : List Setting) : String :=
  String.ofList (Json.writeObject [("heartbeat", Json.writeObject (writeSettings settings))])

/-- Members that are not written have their standard values. -/
theorem decode_writePart (settings : List Setting)
    (hdistinct : (settings.map (·.field)).Nodup) :
    Json.decode (bytesOf (writePart settings))
      = .ok (⟨settings.foldl Policy.set .standard⟩ : PushConfig) := by
  rw [writePart, bytesOf_ofList]
  exact Json.decode_of_reads (Json.delimits_object (.cons rfl rfl
    ((Policy.delimits_settings settings hdistinct).reads.map _) .nil) rfl).reads

theorem decode_writeEmpty :
    Json.decode (bytesOf "\x7b\x7d") = .ok (⟨.standard⟩ : PushConfig) :=
  Json.decode_of_reads (Json.delimits_object .nil rfl).reads

theorem load_bytesOf (text : String) : load (.file (bytesOf text)) = ofJson text := by
  rw [load, textOf?_eq_some_iff.2 rfl]

theorem load_of_not_text {content : Bytes} (h : ∀ text, content ≠ bytesOf text) :
    load (.file content) = .error (.io .notText) := by
  rw [load]
  cases ht : textOf? content with
  | none => rfl
  | some text => exact absurd (textOf?_eq_some_iff.1 ht) (h text)

/-! ## Accepted configurations -/

/-- A configuration is returned for a text or for a path. -/
def Returned (config : PushConfig) : Prop :=
  (∃ text, ofJson text = .ok config) ∨ ∃ entry, load entry = .ok config

theorem valid_standard : Policy.standard.Valid := by
  constructor <;> decide

theorem valid_of_load {entry : PathEntry Bytes} (h : load entry = .ok config) :
    config.heartbeat.Valid := by
  cases entry with
  | missing =>
      cases h
      exact valid_standard
  | missingParent =>
      cases h
      exact valid_standard
  | directory => cases h
  | parentIsFile => cases h
  | file content =>
      rw [load] at h
      cases ht : textOf? content with
      | none =>
          rw [ht] at h
          cases h
      | some text =>
          rw [ht] at h
          exact (ofJson_eq_ok_iff.1 h).2

/-- Exactly the configurations of consistent policies are returned: each is read from its
encoding. -/
theorem returned_iff : config.Returned ↔ config.heartbeat.Valid := by
  constructor
  · rintro (⟨text, h⟩ | ⟨entry, h⟩)
    · exact (ofJson_eq_ok_iff.1 h).2
    · exact valid_of_load h
  · -- any text that denotes the configuration will do, and its encoding is one
    intro hv
    exact .inl ⟨Json.encode config, ofJson_eq_ok_iff.2 ⟨Json.decode_encode config, hv⟩⟩

/-- **A text, a file and an operation accept the same configurations.** A text is accepted when it
denotes a configuration whose policy keeps the rules, and otherwise refused for the first rule
broken or as no configuration; what is not written is standard. A file is read as its text, and
one that is missing as the standard configuration. An operation starts with every configuration
that was returned for a text or a path, and refuses every other one with the world untouched. -/
theorem acceptance :
    (∀ (text : String) (config : PushConfig), ofJson text = .ok config
      ↔ Json.decode (bytesOf text) = .ok config ∧ config.heartbeat.Valid) ∧
    (∀ text message : String, ofJson text = .error (.config message)
      ↔ ∃ config : PushConfig, Json.decode (bytesOf text) = .ok config ∧
          config.heartbeat.firstBreach = some message) ∧
    (∀ (text : String) (fault : Json.Fault), ofJson text = .error (.json fault)
      ↔ (Json.decode (bytesOf text) : Except _ PushConfig) = .error fault) ∧
    (∀ settings : List Setting, (settings.map (·.field)).Nodup →
      Json.decode (bytesOf (writePart settings))
        = .ok (⟨settings.foldl Policy.set ⟨480, 480, 1680, 300, 5⟩⟩ : PushConfig)) ∧
    Json.decode (bytesOf "\x7b\x7d") = .ok (⟨⟨480, 480, 1680, 300, 5⟩⟩ : PushConfig) ∧
    (∀ text : String, load (.file (bytesOf text)) = ofJson text) ∧
    (∀ content : Bytes, (∀ text, content ≠ bytesOf text) →
      ∃ e, load (.file content) = .error (.io e)) ∧
    load .missing = .ok ⟨⟨480, 480, 1680, 300, 5⟩⟩ ∧
    load .missingParent = .ok ⟨⟨480, 480, 1680, 300, 5⟩⟩ ∧
    (∀ (σ : Type) (store : HeartbeatStore σ) (account : AccountId) (config : PushConfig)
      (world : σ), config.Returned →
        ∃ ping, (Ping.start store account config world).result = .ok ping) ∧
    (∀ (σ : Type) (store : HeartbeatStore σ) (account : AccountId) (config : PushConfig)
      (world : σ), ¬ config.Returned →
        ∃ message, config.heartbeat.firstBreach = some message ∧
          Ping.start store account config world = ⟨.error (.config message), world, []⟩) := by
  refine ⟨fun _ _ => ofJson_eq_ok_iff, fun _ _ => ofJson_eq_config_iff,
    fun _ _ => ofJson_eq_json_iff, decode_writePart, ?_, load_bytesOf, ?_, rfl, rfl, ?_, ?_⟩
  · exact decode_writeEmpty
  · intro content h
    exact ⟨.notText, load_of_not_text h⟩
  · intro σ store account config world h
    exact ⟨_, (Ping.start_of_valid (returned_iff.1 h)).1⟩
  · intro σ store account config world h
    cases hb : config.heartbeat.firstBreach with
    | some message => exact ⟨message, rfl, Ping.start_of_breach store account hb world⟩
    | none => exact absurd (returned_iff.2 (Policy.firstBreach_eq_none_iff.1 hb)) h

/-- Lowering the upper bound alone puts it below the standard lower bound; and a byte that no
text holds makes a file unreadable. -/
theorem acceptance_lowered_max :
    writePart [⟨.maxSecs, 100⟩] = "\x7b\"heartbeat\":\x7b\"max_secs\":100\x7d\x7d" ∧
    ofJson (writePart [⟨.maxSecs, 100⟩])
      = .error (.config "heartbeat min_secs (480) exceeds max_secs (100)") ∧
    ∃ e, load (.file [255]) = .error (.io e) := by
  obtain ⟨-, hconfig, -, hpart, -, -, hfile, -⟩ := acceptance
  refine ⟨by decide, ?_, hfile _ ?_⟩
  · exact (hconfig _ _).2 ⟨_, hpart [⟨.maxSecs, 100⟩] (by decide), by decide⟩
  · intro text h
    have hnone : textOf? [255] = none := by decide
    rw [textOf?_eq_some_iff.2 h] at hnone
    cases hnone

end PushConfig

end MailPush
