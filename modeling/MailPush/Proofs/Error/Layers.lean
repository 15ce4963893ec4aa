import MailPush.Error

set_option autoImplicit false

/-! # The layers of an error

An error is wrapped once for every part of the program it crosses. `Source.source?` is what one
layer wraps and `Error.layers` lists the layers, from the outside in. `Error.message` and
`Error.sources` are declared apart from each other, case by case; `Error.text_keeps_causes` says
that they agree at every depth: each layer puts its own heading before the whole text of what it
wraps, so that no cause is ever lost from the outermost text.
-/

namespace MailPush

namespace Error

/-! ## One layer -/

/-- What wraps an error. -/
inductive Layer where
  | metadataUnavailable (account : AccountId)
  | encode
  | storage
  | json
  | io
deriving DecidableEq

/-- What a layer writes before the text of what it wraps. -/
def Layer.heading : Layer → String
  | metadataUnavailable account =>
    "Folder metadata unavailable for account " ++ account.text ++ ": "
  | encode => "Encode error: "
  | storage => "Storage error: "
  | json => "Serialization error: "
  | io => "I/O error: "

/-- The outermost layer of an error. A configuration error wraps nothing. -/
def layer? : Error → Option Layer
  | metadataUnavailable account _ => some (.metadataUnavailable account)
  | encode _ => some .encode
  | storage _ => some .storage
  | storageOf _ => some .storage
  | config _ => none
  | json _ => some .json
  | io _ => some .io

/-- The layers of an error, from the outside in. -/
def layers : Error → List Layer
  | metadataUnavailable account source => .metadataUnavailable account :: source.layers
  | encode _ => [.encode]
  | storage _ => [.storage]
  | storageOf source => .storage :: source.layers
  | config _ => []
  | json _ => [.json]
  | io _ => [.io]

/-- What an error wraps directly. The errors of codecs, of transports and of files wrap nothing. -/
def Source.source? : Source → Option Source
  | .error (metadataUnavailable _ source) => some (.error source)
  | .error (encode fault) => some (.cause (.codec fault))
  | .error (storage wrapped) => some (.cause wrapped)
  | .error (storageOf source) => some (.error source)
  | .error (config _) => none
  | .error (json fault) => some (.cause (.json fault))
  | .error (io fault) => some (.cause (.io fault))
  | .cause _ => none

/-- The text of an error is the heading of its outermost layer, then the whole text of what that
layer is around. -/
theorem message_of_layer {e : Error} {layer : Layer} {t : Source}
    (outermost : e.layer? = some layer) (wraps : (Source.error e).source? = some t) :
    e.message = layer.heading ++ t.message := by
  cases e <;> simp only [layer?, Source.source?, Option.some.injEq, reduceCtorEq] at outermost wraps
  all_goals
    subst outermost wraps
    rfl

/-- An error that goes back to a file, a codec, a transport or a configuration. Not among these are
the faults of a JSON text, which are shown by their category only, and the failures of a
database. -/
inductive Traceable : Error → Prop where
  | config (reason : String) : Traceable (.config reason)
  | encode (error : CodecError) : Traceable (.encode error)
  | io (error : FileError) : Traceable (.io error)
  | storage {cause : Cause} (notStore : ∀ error, cause ≠ .store error) :
      Traceable (.storage cause)
  | storageOf {source : Error} (inner : Traceable source) : Traceable (.storageOf source)
  | metadataUnavailable (account : AccountId) {source : Error} (inner : Traceable source) :
      Traceable (.metadataUnavailable account source)

/-! ## All layers -/

/-- Following what each error wraps from `s` meets the sources `below` and then ends. Each step
takes off one of the layers, and with it no more than that layer's heading. -/
inductive Unwraps : Source → List Layer → List Source → Prop where
  | bottom {s : Source} (wrapsNothing : s.source? = none) : Unwraps s [] []
  | layer {s t : Source} {layer : Layer} {layers : List Layer} {below : List Source}
      (wraps : s.source? = some t) (text : s.message = layer.heading ++ t.message)
      (inner : Unwraps t layers below) : Unwraps s (layer :: layers) (t :: below)

variable {s : Source} {layers : List Layer} {below : List Source}

/-- One source for each layer. -/
theorem Unwraps.length_eq (h : Unwraps s layers below) : below.length = layers.length := by
  induction h with
  | bottom _ => rfl
  | layer _ _ _ ih => simp [ih]

/-- The text ends with that of every source, and before it stand the headings of the layers
above. -/
theorem Unwraps.message_eq (h : Unwraps s layers below) (n : Nat) (t : Source)
    (ht : below[n]? = some t) :
    s.message = String.join ((layers.take (n + 1)).map Layer.heading) ++ t.message := by
  induction h generalizing n with
  | bottom _ => simp at ht
  | layer _ text _ ih =>
      rw [text]
      cases n with
      | zero =>
          obtain rfl : _ = t := by simpa using ht
          simp
      | succ n =>
          rw [ih n (by simpa using ht)]
          simp [String.append_assoc]

/-- The listed sources are those that are met one after the other. -/
theorem Traceable.unwraps {e : Error} (h : e.Traceable) :
    Unwraps (.error e) e.layers e.sources := by
  induction h with
  | config _ => exact .bottom rfl
  | encode error => exact .layer rfl (message_of_layer rfl rfl) (.bottom rfl)
  | io error => exact .layer rfl (message_of_layer rfl rfl) (.bottom rfl)
  | storage _ => exact .layer rfl (message_of_layer rfl rfl) (.bottom rfl)
  | storageOf _ ih => exact .layer rfl (message_of_layer rfl rfl) ih
  | metadataUnavailable _ _ ih => exact .layer rfl (message_of_layer rfl rfl) ih

/-- **The text of an error keeps its whole cause**: from an error that goes back to a file, a
codec, a transport or a configuration, the sources come to an end after as many steps as there are
layers; each text on the way is its layer's heading followed by the complete text of the next; and
so the outermost text is the headings of the layers passed followed by the text of any source. -/
theorem text_keeps_causes (e : Error) (h : e.Traceable) :
    Unwraps (.error e) e.layers e.sources ∧
      e.sources.length = e.layers.length ∧
      ∀ (n : Nat) (t : Source), e.sources[n]? = some t →
        e.message = String.join ((e.layers.take (n + 1)).map Layer.heading) ++ t.message :=
  ⟨h.unwraps, h.unwraps.length_eq, h.unwraps.message_eq⟩

/-- The folders of an account that could not be read from a store that met the same failure of
another account, in the end a file that is a directory. -/
theorem text_keeps_causes_nested :
    let e : Error := .metadataUnavailable ⟨7⟩
      (.storageOf (.metadataUnavailable ⟨-3⟩ (.storage (.io .isDirectory))))
    e.sources.length = 4 ∧
      e.message =
        String.join ["Folder metadata unavailable for account 7: ", "Storage error: ",
          "Folder metadata unavailable for account -3: ", "Storage error: "] ++
        "Is a directory (os error 21)" := by
  intro e
  have traceable : e.Traceable :=
    .metadataUnavailable _ (.storageOf (.metadataUnavailable _ (.storage (by simp))))
  obtain ⟨-, length, text⟩ := text_keeps_causes e traceable
  exact ⟨length, text 3 (.cause (.io .isDirectory)) rfl⟩

end Error

end MailPush
