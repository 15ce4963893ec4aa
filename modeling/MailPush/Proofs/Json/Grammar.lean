import MailPush.Json.Skip
import MailPush.Proofs.Json.Strings

set_option autoImplicit false

/-! # Well-formed JSON

The grammar of JSON over bytes, apart from any reader of it. Values are words, numbers, strings and
brackets around parts (`WellFormed`). A string is well-formed by its escapes alone (`StringText`);
one that spells a text, character by character in any of the ways in which a character can be
written, is `Spelled`. An object is also given by its entries (`ObjectText`), in which a name may be
missing (`Omitted`), given once (`Given`) or repeated (`Repeated`), and an array by its items
(`ArrayText`).
-/

namespace MailPush.Json

/-! ## Blanks and numbers -/

/-- Blanks, of which any number may stand between tokens. -/
def Blank (ws : Bytes) : Prop := ∀ b ∈ ws, isBlank b = true

/-- One digit or more. -/
def Digits (ds : Bytes) : Prop := ds ≠ [] ∧ ∀ d ∈ ds, isDigit d = true

/-- The digits before a point: no zero stands in front of others. -/
def WholeText (ds : Bytes) : Prop := Digits ds ∧ (ds.head? = some (byte '0') → ds = [byte '0'])

/-- A point with digits, or nothing. -/
def FractionText (t : Bytes) : Prop := t = [] ∨ ∃ ds, Digits ds ∧ t = byte '.' :: ds

/-- The mark of an exponent with a sign or none and digits, or nothing. -/
def ExponentText (t : Bytes) : Prop :=
  t = [] ∨ ∃ mark sign ds, (mark = byte 'e' ∨ mark = byte 'E') ∧
    (sign = [] ∨ sign = [byte '-'] ∨ sign = [byte '+']) ∧ Digits ds ∧ t = mark :: (sign ++ ds)

/-- A number: a minus sign or none, digits, and perhaps a fraction and an exponent. -/
inductive NumberText : Bytes → Prop
  | mk {sign whole fraction exponent : Bytes} : (sign = [] ∨ sign = [byte '-']) →
      WholeText whole → FractionText fraction → ExponentText exponent →
      NumberText (sign ++ (whole ++ (fraction ++ exponent)))

/-! ## Strings -/

/-- The bytes between the quotes of a string. -/
inductive StringText : Bytes → Prop
  | nil : StringText []
  | plain {b : UInt8} {t : Bytes} : Plain b → StringText t → StringText (b :: t)
  | short {e : UInt8} {t : Bytes} : e ∈ utf8 "\"\\/bfnrt".toList → StringText t →
      StringText (byte '\\' :: e :: t)
  | code {a b c d : UInt8} {t : Bytes} : (∀ h ∈ [a, b, c, d], (hexValue? h).isSome) →
      StringText t → StringText (byte '\\' :: byte 'u' :: a :: b :: c :: d :: t)

/-- Four hexadecimal digits, in either case, and their number. -/
def Hex (n : Nat) (t : Bytes) : Prop :=
  ∃ a b c d va vb vc vd, t = [a, b, c, d] ∧ hexValue? a = some va ∧ hexValue? b = some vb ∧
    hexValue? c = some vc ∧ hexValue? d = some vd ∧ n = ((va * 16 + vb) * 16 + vc) * 16 + vd

/-- The ways in which a character can be written in a string: by its bytes, by an escape of one
letter, by its code point, or by a pair of surrogates. -/
inductive CharText : Char → Bytes → Prop
  | plain {c : Char} : c ≠ '"' → c ≠ '\\' → ¬ c < ' ' → CharText c (String.utf8EncodeChar c)
  | short {c e : Char} : (e, c) ∈ [('"', '"'), ('\\', '\\'), ('/', '/'), ('b', '\x08'),
      ('f', '\x0c'), ('n', '\n'), ('r', '\r'), ('t', '\t')] → CharText c [byte '\\', byte e]
  | code {c : Char} {t : Bytes} : Hex c.toNat t → CharText c (byte '\\' :: byte 'u' :: t)
  | pair {c : Char} {n : Nat} {t t' : Bytes} : c.toNat = 0x10000 + n →
      Hex (0xD800 + n / 0x400) t → Hex (0xDC00 + n % 0x400) t' →
      CharText c (byte '\\' :: byte 'u' :: (t ++ byte '\\' :: byte 'u' :: t'))

/-- The bytes between the quotes of a string spell a text. -/
inductive Spelled : List Char → Bytes → Prop
  | nil : Spelled [] []
  | cons {c : Char} {cs : List Char} {t ts : Bytes} : CharText c t → Spelled cs ts →
      Spelled (c :: cs) (t ++ ts)

/-! ## Values -/

/-- The byte that opens a bracket. -/
def Frame.opening : Frame → UInt8
  | array => byte '['
  | object => byte '{'

/-- A member of an object: a string, a colon and a value, with blanks around each. -/
def memberBytes (before key colon after t behind : Bytes) : Bytes :=
  before ++ byte '"' :: (key ++ byte '"' :: (colon ++ byte ':' :: (after ++ (t ++ behind))))

/-- What a text can be a piece of: a value, a part between brackets, or parts with commas between
them. -/
inductive Form where
  | value
  | part (frame : Frame)
  | parts (frame : Frame)

/-- Well-formed JSON. -/
inductive WellFormed : Form → Bytes → Prop
  | word {w : String} : w ∈ ["null", "true", "false"] → WellFormed .value (utf8 w.toList)
  | number {t : Bytes} : NumberText t → WellFormed .value t
  | string {t : Bytes} : StringText t → WellFormed .value (byte '"' :: (t ++ [byte '"']))
  | empty {frame : Frame} {ws : Bytes} : Blank ws →
      WellFormed .value (frame.opening :: (ws ++ [frame.close]))
  | bracket {frame : Frame} {t : Bytes} : WellFormed (.parts frame) t →
      WellFormed .value (frame.opening :: (t ++ [frame.close]))
  | item {before t behind : Bytes} : Blank before → WellFormed .value t → Blank behind →
      WellFormed (.part .array) (before ++ (t ++ behind))
  | member {before key colon after t behind : Bytes} : Blank before → StringText key →
      Blank colon → Blank after → WellFormed .value t → Blank behind →
      WellFormed (.part .object) (memberBytes before key colon after t behind)
  | last {frame : Frame} {p : Bytes} : WellFormed (.part frame) p → WellFormed (.parts frame) p
  | more {frame : Frame} {p t : Bytes} : WellFormed (.part frame) p →
      WellFormed (.parts frame) t → WellFormed (.parts frame) (p ++ byte ',' :: t)

/-! ## Objects by their entries -/

/-- An entry of an object: what stands between the quotes of its key, and the text of its value. -/
structure Entry where
  key : Bytes
  value : Bytes

/-- The key of an entry spells a name. -/
def Entry.Named (e : Entry) (name : String) : Prop := Spelled name.toList e.key

/-- The text of an entry, with blanks around its tokens. -/
inductive EntryText (e : Entry) : Bytes → Prop
  | mk {before colon after behind : Bytes} : Blank before → StringText e.key → Blank colon →
      Blank after → WellFormed .value e.value → Blank behind →
      EntryText e (memberBytes before e.key colon after e.value behind)

/-- The text of one entry or more, with commas between them. -/
inductive EntriesText : List Entry → Bytes → Prop
  | last {e : Entry} {p : Bytes} : EntryText e p → EntriesText [e] p
  | more {e : Entry} {es : List Entry} {p t : Bytes} : EntryText e p → EntriesText es t →
      EntriesText (e :: es) (p ++ byte ',' :: t)

/-- The text of a well-formed object with these entries, in this order. -/
inductive ObjectText : List Entry → Bytes → Prop
  | empty {ws : Bytes} : Blank ws → ObjectText [] (byte '{' :: (ws ++ [byte '}']))
  | entries {es : List Entry} {t : Bytes} : EntriesText es t →
      ObjectText es (byte '{' :: (t ++ [byte '}']))

theorem EntryText.part {e : Entry} {p : Bytes} (h : EntryText e p) :
    WellFormed (.part .object) p := by
  obtain ⟨hbefore, hkey, hcolon, hafter, hvalue, hbehind⟩ := h
  exact .member hbefore hkey hcolon hafter hvalue hbehind

theorem EntriesText.parts {es : List Entry} {t : Bytes} (h : EntriesText es t) :
    WellFormed (.parts .object) t := by
  induction h with
  | last hp => exact .last hp.part
  | more hp _ ih => exact .more hp.part ih

/-- An object is well-formed JSON. -/
theorem ObjectText.wellFormed {es : List Entry} {t : Bytes} (h : ObjectText es t) :
    WellFormed .value t := by
  cases h with
  | empty hws => exact @WellFormed.empty .object _ hws
  | entries hes => exact @WellFormed.bracket .object _ hes.parts

/-- A whole text that is an object with these entries, with blanks around it. -/
def Document (es : List Entry) (text : Bytes) : Prop :=
  ∃ ws t ws', Blank ws ∧ ObjectText es t ∧ Blank ws' ∧ text = ws ++ (t ++ ws')

/-- The key of every entry spells a name. -/
def AllNamed (es : List Entry) : Prop := ∀ e ∈ es, ∃ name, e.Named name

/-- No entry has this name. -/
def Omitted (name : String) (es : List Entry) : Prop := ∀ e ∈ es, ¬ e.Named name

/-- One entry and no other has this name, and its value is of this kind. -/
inductive Given (name : String) (kind : Bytes → Prop) : List Entry → Prop
  | here {e : Entry} {es : List Entry} : e.Named name → kind e.value → Omitted name es →
      Given name kind (e :: es)
  | later {e : Entry} {es : List Entry} : ¬ e.Named name → Given name kind es →
      Given name kind (e :: es)

/-- Two entries or more have this name. -/
def Repeated (name : String) (es : List Entry) : Prop :=
  ∃ e e', [e, e'].Sublist es ∧ e.Named name ∧ e'.Named name

/-! ## Arrays by their items -/

/-- The text of one item or more, each of the kind that goes with its value, with commas between
them and blanks around each. -/
inductive ItemsText {α : Type} (kind : α → Bytes → Prop) : List α → Bytes → Prop
  | last {a : α} {before t behind : Bytes} : Blank before → kind a t → Blank behind →
      ItemsText kind [a] (before ++ (t ++ behind))
  | more {a : α} {as : List α} {before t behind ts : Bytes} : Blank before → kind a t →
      Blank behind → ItemsText kind as ts →
      ItemsText kind (a :: as) (before ++ (t ++ (behind ++ byte ',' :: ts)))

/-- The text of an array of such items. -/
inductive ArrayText {α : Type} (kind : α → Bytes → Prop) : List α → Bytes → Prop
  | empty {ws : Bytes} : Blank ws → ArrayText kind [] (byte '[' :: (ws ++ [byte ']']))
  | items {as : List α} {t : Bytes} : ItemsText kind as t →
      ArrayText kind as (byte '[' :: (t ++ [byte ']']))

/-- A string that spells a text. -/
def Quoted (text : String) (t : Bytes) : Prop :=
  ∃ key, Spelled text.toList key ∧ t = byte '"' :: (key ++ [byte '"'])

end MailPush.Json
