import MailPush.Store.Opening
import MailPush.Proofs.Json.Utf8
import Mathlib.Data.List.TakeWhile

set_option autoImplicit false

/-! # Where a path leads

The path of a repository is pasted as it is into a connection URL, and the database then reads the
URL: it takes away schemes in front, replaces percent escapes, and refuses a URL that has a question
mark before that of its parameters. The first two can only shorten the path, so the file that is
named is the one at the path exactly when nothing is found to take away or to refuse (`Verbatim`).
`path_opened` says so; of the other paths, two different ones may share a file, and the default path
may lead out of the directory that was made for it (`paths_confused`).
-/

namespace MailPush

/-! ## Schemes in front -/

section DropRepeated

variable {start cs ds : List Char} {c : Char}

theorem dropRepeated_of_not_start (h : ¬ start <+: cs) : dropRepeated start cs = cs := by
  rw [dropRepeated, if_neg]
  rintro ⟨-, hprefix⟩
  exact h (List.isPrefixOf_iff_prefix.1 hprefix)

theorem dropRepeated_append (hstart : start ≠ []) (cs : List Char) :
    dropRepeated start (start ++ cs) = dropRepeated start cs := by
  rw [dropRepeated, if_pos, List.drop_left]
  exact ⟨hstart, List.isPrefixOf_iff_prefix.2 (List.prefix_append start cs)⟩

/-- What is left is an end of the text. -/
theorem dropRepeated_suffix (start cs : List Char) : dropRepeated start cs <:+ cs := by
  fun_induction dropRepeated start cs with
  | case1 cs _ ih => exact ih.trans (List.drop_suffix start.length cs)
  | case2 cs _ => exact List.suffix_rfl

/-- A start that is met is taken away, with all its characters. -/
theorem length_dropRepeated_le (hstart : start ≠ []) (h : start <+: cs) :
    (dropRepeated start cs).length + start.length ≤ cs.length := by
  obtain ⟨ds, rfl⟩ := h
  have hle := (dropRepeated_suffix start ds).length_le
  rw [dropRepeated_append hstart, List.length_append]
  omega

/-- A start in which a character does not occur ends before that character. -/
theorem prefix_append_cons_iff (h : c ∉ start) : start <+: cs ++ c :: ds ↔ start <+: cs := by
  constructor
  · intro hprefix
    by_cases hlength : start.length ≤ cs.length
    · exact List.prefix_of_prefix_length_le hprefix (List.prefix_append cs _) hlength
    · -- otherwise the start reaches over the character
      have hover : cs ++ [c] <+: start := by
        refine List.prefix_of_prefix_length_le ⟨ds, by simp⟩ hprefix ?_
        rw [List.length_append, List.length_singleton]
        omega
      exact absurd (hover.subset (by simp)) h
  · intro hprefix
    exact hprefix.trans (List.prefix_append cs _)

theorem dropRepeated_append_cons (h : c ∉ start) (cs ds : List Char) :
    dropRepeated start (cs ++ c :: ds) = dropRepeated start cs ++ c :: ds := by
  fun_induction dropRepeated start cs with
  | case1 cs hmet ih =>
      obtain ⟨hstart, hprefix⟩ := hmet
      obtain ⟨rest, rfl⟩ := List.isPrefixOf_iff_prefix.1 hprefix
      rw [List.drop_left] at ih
      rw [List.drop_left, List.append_assoc, dropRepeated_append hstart]
      exact ih
  | case2 cs hunmet =>
      by_cases hstart : start = []
      · rw [dropRepeated, if_neg (fun hmet => hmet.1 hstart)]
      · refine dropRepeated_of_not_start fun hprefix => hunmet ⟨hstart, ?_⟩
        exact List.isPrefixOf_iff_prefix.2 ((prefix_append_cons_iff h).1 hprefix)

end DropRepeated

/-! ## Percent escapes -/

/-- Bytes in which a percent sign stands before two hexadecimal digits. -/
def HasEscape (bs : Bytes) : Prop :=
  ∃ front high low back, bs = front ++ byte '%' :: high :: low :: back ∧
    (hexValue? high).isSome ∧ (hexValue? low).isSome

theorem hasEscape_cons_iff {b : UInt8} {rest : Bytes} :
    HasEscape (b :: rest) ↔
      (b = byte '%' ∧ ∃ high low back, rest = high :: low :: back ∧
        (hexValue? high).isSome ∧ (hexValue? low).isSome) ∨ HasEscape rest := by
  constructor
  · rintro ⟨front, high, low, back, heq, hhigh, hlow⟩
    cases front with
    | nil =>
        obtain ⟨rfl, rfl⟩ := List.cons.inj heq
        exact .inl ⟨rfl, high, low, back, rfl, hhigh, hlow⟩
    | cons first front =>
        obtain ⟨-, rfl⟩ := List.cons.inj heq
        exact .inr ⟨front, high, low, back, rfl, hhigh, hlow⟩
  · rintro (⟨rfl, high, low, back, rfl, hhigh, hlow⟩ | ⟨front, high, low, back, rfl, hhigh, hlow⟩)
    · exact ⟨[], high, low, back, rfl, hhigh, hlow⟩
    · exact ⟨b :: front, high, low, back, rfl, hhigh, hlow⟩

/-- Bytes are unchanged if they have no escape, and shortened if they have one. -/
def Replaced (bs decoded : Bytes) : Prop :=
  (¬ HasEscape bs ∧ decoded = bs) ∨ (HasEscape bs ∧ decoded.length < bs.length)

theorem Replaced.cons {b : UInt8} {rest decoded : Bytes} (h : Replaced rest decoded)
    (hb : ¬ (b = byte '%' ∧ ∃ high low back, rest = high :: low :: back ∧
      (hexValue? high).isSome ∧ (hexValue? low).isSome)) :
    Replaced (b :: rest) (b :: decoded) := by
  rw [Replaced, hasEscape_cons_iff, or_iff_right hb]
  rcases h with ⟨hnone, rfl⟩ | ⟨hsome, hlength⟩
  · exact .inl ⟨hnone, rfl⟩
  · exact .inr ⟨hsome, Nat.succ_lt_succ hlength⟩

/-- **Replacing escapes leaves bytes without escapes, and shortens all others.** -/
theorem replaced_percentDecode (bs : Bytes) : Replaced bs (percentDecode bs) := by
  fun_induction percentDecode bs with
  | case1 =>
      refine .inl ⟨?_, rfl⟩
      rintro ⟨front, high, low, back, heq, -⟩
      simp at heq
  | case2 high low others vhigh vlow hlow hhigh ih =>
      refine .inr ⟨hasEscape_cons_iff.2 (.inl ⟨rfl, high, low, others, rfl, ?_, ?_⟩), ?_⟩
      · rw [hhigh, Option.isSome_some]
      · rw [hlow, Option.isSome_some]
      · have hle : (percentDecode others).length ≤ others.length := by
          rcases ih with ⟨-, heq⟩ | ⟨-, hlt⟩
          · exact Nat.le_of_eq (congrArg _ heq)
          · exact Nat.le_of_lt hlt
        simp only [List.length_cons]
        omega
  | case3 high low others hnot ih =>
      refine ih.cons ?_
      rintro ⟨-, _, _, _, heq, hhigh, hlow⟩
      obtain ⟨rfl, rfl, rfl⟩ : high = _ ∧ low = _ ∧ others = _ := by simpa using heq
      exact hnot _ _ (Option.some_get hhigh).symm (Option.some_get hlow).symm
  | case4 others hshort ih =>
      -- too little is left behind the percent sign
      refine ih.cons ?_
      rintro ⟨-, high, low, back, heq, -⟩
      exact hshort high low back heq
  | case5 b rest hb ih => exact ih.cons fun hhead => hb hhead.1

/-! ## What a URL names -/

/-- Characters that are left out take their bytes with them. -/
theorem length_utf8_of_sublist {cs ds : List Char} (h : cs.Sublist ds) :
    (utf8 cs).length + ds.length ≤ (utf8 ds).length + cs.length := by
  induction h with
  | slnil => exact Nat.le_refl _
  | cons c h ih =>
      have hpos : 0 < (String.utf8EncodeChar c).length :=
        String.length_utf8EncodeChar c ▸ c.utf8Size_pos
      rw [utf8_cons, List.length_append, List.length_cons]
      omega
  | cons_cons c h ih =>
      simp only [utf8_cons, List.length_append, List.length_cons]
      omega

/-- A path without the schemes that a URL finds in front of it. -/
def withoutSchemes (path : List Char) : List Char :=
  dropRepeated scheme.toList (dropRepeated schemeWithAuthority.toList (scheme.toList ++ path))

/-- What stands from the first question mark on stays. -/
theorem withoutSchemes_append_query (front rest : List Char) :
    withoutSchemes (front ++ '?' :: rest) = withoutSchemes front ++ '?' :: rest := by
  rw [withoutSchemes, ← List.append_assoc, dropRepeated_append_cons (by decide),
    dropRepeated_append_cons (by decide), withoutSchemes]

/-- The schemes in front are taken off the start of the path, if there are any. -/
theorem withoutSchemes_cases (path : List Char) :
    withoutSchemes path <:+ path ∧
      (withoutSchemes path = path ↔ ¬ "//".toList <+: path ∧ ¬ scheme.toList <+: path) := by
  have hscheme : schemeWithAuthority.toList = scheme.toList ++ "//".toList := by decide
  by_cases hauthority : "//".toList <+: path
  · obtain ⟨rest, rfl⟩ := hauthority
    have hsuffix : withoutSchemes ("//".toList ++ rest) <:+ rest := by
      rw [withoutSchemes, ← List.append_assoc, ← hscheme, dropRepeated_append (by decide)]
      exact (dropRepeated_suffix ..).trans (dropRepeated_suffix ..)
    refine ⟨hsuffix.trans (List.suffix_append ..), ?_⟩
    refine iff_of_false (fun heq => ?_) (fun h => h.1 (List.prefix_append ..))
    have hle := hsuffix.length_le
    rw [heq, List.length_append] at hle
    have : "//".toList.length = 2 := rfl
    omega
  · have hnone : ¬ schemeWithAuthority.toList <+: scheme.toList ++ path := by
      rw [hscheme, List.prefix_append_right_inj]
      exact hauthority
    have hwithout : withoutSchemes path = dropRepeated scheme.toList path := by
      rw [withoutSchemes, dropRepeated_of_not_start hnone, dropRepeated_append (by decide)]
    rw [hwithout]
    refine ⟨dropRepeated_suffix .., ?_⟩
    by_cases hprefix : scheme.toList <+: path
    · refine iff_of_false (fun heq => ?_) (fun h => h.2 hprefix)
      have hle := length_dropRepeated_le (by decide) hprefix
      rw [heq] at hle
      have : scheme.toList.length = 7 := rfl
      omega
    · exact iff_of_true (dropRepeated_of_not_start hprefix) ⟨hauthority, hprefix⟩

theorem query_mem_withoutSchemes_iff {path : List Char} :
    '?' ∈ withoutSchemes path ↔ '?' ∈ path := by
  constructor
  · intro hmem
    exact (withoutSchemes_cases path).1.subset hmem
  · intro hmem
    obtain ⟨front, rest, rfl⟩ := List.append_of_mem hmem
    rw [withoutSchemes_append_query]
    simp

section Query

variable {cs ds : List Char} {c : Char}

theorem takeWhile_append_cons_eq_self (h : c ∉ cs) :
    (cs ++ c :: ds).takeWhile (· != c) = cs := by
  rw [List.takeWhile_append_of_pos]
  · simp
  · intro d hd
    have hne : d ≠ c := fun heq => h (heq ▸ hd)
    simpa using hne

theorem dropWhile_append_cons_ne_nil : (cs ++ c :: ds).dropWhile (· != c) ≠ [] := by
  intro hnil
  rw [List.dropWhile_eq_nil_iff] at hnil
  simpa using hnil c (by simp)

/-- Dropping up to a character stops at a given occurrence exactly when there is none before it. -/
theorem dropWhile_append_cons_eq_iff : (cs ++ c :: ds).dropWhile (· != c) = c :: ds ↔ c ∉ cs := by
  induction cs with
  | nil => simp
  | cons d cs ih =>
      by_cases hd : d = c
      · -- then nothing is dropped, and the whole text is longer
        subst hd
        refine iff_of_false (fun heq => ?_) (by simp)
        have hlength := congrArg List.length heq
        simp only [List.cons_append, bne_self_eq_false, Bool.false_eq_true, not_false_eq_true,
          List.dropWhile_cons_of_neg, List.length_cons, List.length_append] at hlength
        omega
      · rw [List.cons_append, List.dropWhile_cons_of_pos (by simpa using hd), ih]
        simp [Ne.symm hd]

end Query

/-- What the URL of a path names. -/
theorem ofUrl?_connectionUrl (path : String) :
    Location.ofUrl? (connectionUrl path) =
      if '?' ∈ path.toList then none
      else if withoutSchemes path.toList = ":memory:".toList then some .memory
      else (textOf? (percentDecode (utf8 (withoutSchemes path.toList)))).map .file := by
  have hcreating : creatingQuery.toList = '?' :: "mode=rwc".toList := by decide
  have hurl : (connectionUrl path).toList =
      scheme.toList ++ (path.toList ++ '?' :: "mode=rwc".toList) := by
    simp [connectionUrl, hcreating]
  have hpath : dropRepeated scheme.toList
        (dropRepeated schemeWithAuthority.toList (connectionUrl path).toList)
      = withoutSchemes path.toList ++ '?' :: "mode=rwc".toList := by
    rw [hurl, ← withoutSchemes_append_query, withoutSchemes]
  simp only [Location.ofUrl?, hpath, hcreating]
  by_cases hmem : '?' ∈ path.toList
  · -- the question mark of the path comes first, and makes another query
    have hfirst := query_mem_withoutSchemes_iff.2 hmem
    rw [if_pos ⟨dropWhile_append_cons_ne_nil, fun h => dropWhile_append_cons_eq_iff.1 h hfirst⟩,
      if_pos hmem]
  · have hnone := mt query_mem_withoutSchemes_iff.1 hmem
    rw [if_neg (fun h => h.2 (dropWhile_append_cons_eq_iff.2 hnone)), if_neg hmem,
      takeWhile_append_cons_eq_self hnone, bytesOf_ofList]

/-- A path of which the URL takes nothing away, and that does not have it refused: it has no question
mark and no percent escape, and it neither starts with two slashes or with a scheme nor is the name
of the database without a file. -/
structure Verbatim (path : String) : Prop where
  noQuery : '?' ∉ path.toList
  noEscape : ¬ HasEscape (bytesOf path)
  noAuthority : ¬ "//".toList <+: path.toList
  noScheme : ¬ scheme.toList <+: path.toList
  ne_memory : path ≠ ":memory:"

/-- **A URL names the file at its path when nothing is taken away from the path**, and only
then. -/
theorem ofUrl?_connectionUrl_eq_iff {path : String} :
    Location.ofUrl? (connectionUrl path) = some (.file path) ↔ Verbatim path := by
  have hbytes : bytesOf path = utf8 path.toList := by
    rw [← bytesOf_ofList, String.ofList_toList]
  have hmemory : path.toList = ":memory:".toList ↔ path = ":memory:" := String.toList_inj
  obtain ⟨hsuffix, hwhole⟩ := withoutSchemes_cases path.toList
  rw [ofUrl?_connectionUrl]
  constructor
  · intro h
    split_ifs at h with hquery hne
    · cases h
    obtain ⟨text, htext, hfile⟩ := Option.map_eq_some_iff.1 h
    obtain rfl : text = path := Location.file.inj hfile
    rw [textOf?_eq_some_iff, hbytes] at htext
    have hlength := length_utf8_of_sublist hsuffix.sublist
    have hle := hsuffix.length_le
    rcases replaced_percentDecode (utf8 (withoutSchemes text.toList)) with ⟨hnone, heq⟩ | ⟨-, hlt⟩
    · -- as many bytes are left as there were, so no character is missing
      rw [heq] at htext
      have hname : withoutSchemes text.toList = text.toList := by
        refine hsuffix.eq_of_length_le ?_
        rw [htext] at hlength
        omega
      obtain ⟨hauthority, hscheme⟩ := hwhole.1 hname
      rw [hname] at hnone hne
      exact ⟨hquery, hbytes ▸ hnone, hauthority, hscheme, mt hmemory.2 hne⟩
    · rw [htext] at hlt
      omega
  · rintro ⟨hquery, hescape, hauthority, hscheme, hne⟩
    rw [if_neg hquery, hwhole.2 ⟨hauthority, hscheme⟩, if_neg (mt hmemory.1 hne), ← hbytes]
    rcases replaced_percentDecode (bytesOf path) with ⟨-, heq⟩ | ⟨hsome, -⟩
    · rw [heq, textOf?_bytesOf]
      rfl
    · exact absurd hsome hescape

/-! ## Opening -/

namespace Repository

theorem openAt_of_verbatim {path : String} (h : Verbatim path)
    (files : String → PathEntry Repository) : openAt files path = ofEntry (files path) := by
  rw [openAt, openUrl, ofUrl?_connectionUrl_eq_iff.2 h]

/-- A path with a question mark is not opened at all. -/
theorem openAt_of_query {path : String} (h : '?' ∈ path.toList)
    (files : String → PathEntry Repository) :
    openAt files path = .error (.database .urlRefused) := by
  rw [openAt, openUrl, ofUrl?_connectionUrl, if_pos h]

/-- The repository of a user is opened in the directory that was made for it. -/
theorem openDefault_of_verbatim {dataHome home : Option String}
    (h : Verbatim (defaultPath dataHome home)) (files : String → PathEntry Repository)
    (hparent : files (defaultPath dataHome home) ≠ .parentIsFile) :
    openDefault files dataHome home =
      ofEntry (withDirectory (files (defaultPath dataHome home))) := by
  unfold openDefault
  dsimp only
  split
  · contradiction
  · rw [openAt_of_verbatim h, if_pos rfl]

/-- **Which file is opened for a path.** It is the one at the path exactly when the URL takes
nothing away from the path and is not refused for it (`Verbatim`). Two different paths of this kind
never lead to one database; and the default path, if it is of this kind, leads into the directory
that was just made. A path with a question mark leads nowhere. -/
theorem path_opened (path : String) :
    (Location.ofUrl? (connectionUrl path) = some (.file path) ↔ Verbatim path) ∧
    (Verbatim path → ∀ files, openAt files path = ofEntry (files path)) ∧
    (Verbatim path → ∀ other, Verbatim other → path ≠ other →
      Location.ofUrl? (connectionUrl path) ≠ Location.ofUrl? (connectionUrl other)) ∧
    (Verbatim path → ∀ files dataHome home, defaultPath dataHome home = path →
      files path ≠ .parentIsFile →
      openDefault files dataHome home = ofEntry (withDirectory (files path))) ∧
    ('?' ∈ path.toList → ∀ files, openAt files path = .error (.database .urlRefused)) := by
  refine ⟨ofUrl?_connectionUrl_eq_iff, openAt_of_verbatim, ?_, ?_, openAt_of_query⟩
  · intro h other hother hne heq
    rw [ofUrl?_connectionUrl_eq_iff.2 h, ofUrl?_connectionUrl_eq_iff.2 hother] at heq
    exact hne (Location.file.inj (Option.some.inj heq))
  · rintro h files dataHome home rfl hparent
    exact openDefault_of_verbatim h files hparent

/-- The default path of a user whose data directory is `/data`. Its file is made where it is missing,
also with the directory, and is another one than that of a path in the data directory itself. A
question mark in its place has the URL refused. -/
theorem path_opened_default :
    let path := "/data/easpush/push.db"
    let other := "/data/push.db"
    Verbatim path ∧
      openAt (fun _ => .missing) path = .ok .empty ∧
      Location.ofUrl? (connectionUrl path) ≠ Location.ofUrl? (connectionUrl other) ∧
      openDefault (fun _ => .missingParent) (some "/data") none = .ok .empty ∧
      openAt (fun _ => .missing) "/data?/push.db" = .error (.database .urlRefused) := by
  intro path other
  obtain ⟨hiff, hopened, hdistinct, hdefault, -⟩ := path_opened path
  have hpath : Verbatim path := hiff.1 (by decide +kernel)
  have hother : Verbatim other := (path_opened other).1.1 (by decide +kernel)
  obtain ⟨-, -, -, -, hrefused⟩ := path_opened "/data?/push.db"
  refine ⟨hpath, hopened hpath _, hdistinct hpath other hother (by decide), ?_,
    hrefused (by decide) _⟩
  exact hdefault hpath _ _ _ (by decide +kernel) nofun

/-- Two different paths lead to one file, by an escape or by slashes that are taken away; a path leads
to no file at all; and the default path below a directory with an escape leads to a file outside of
that directory. -/
theorem paths_confused :
    Location.ofUrl? (connectionUrl "a") = some (.file "a") ∧
      Location.ofUrl? (connectionUrl "%61") = some (.file "a") ∧
      Location.ofUrl? (connectionUrl "//x") = some (.file "x") ∧
      Location.ofUrl? (connectionUrl ":memory:") = some .memory ∧
      defaultPath (some "/data%31") (some "/home/u") = "/data%31/easpush/push.db" ∧
      Location.ofUrl? (connectionUrl "/data%31/easpush/push.db")
        = some (.file "/data1/easpush/push.db") ∧
      Location.ofUrl? (connectionUrl "a?1") = none := by
  refine ⟨?_, ?_, ?_, ?_, ?_, ?_, ?_⟩ <;> decide +kernel

end Repository

end MailPush
