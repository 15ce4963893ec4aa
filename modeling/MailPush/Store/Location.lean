import MailPush.Bytes

set_option autoImplicit false

/-! # Where a repository is

A repository is opened by a connection URL: a scheme, the path of its file, and the parameter
by which a missing file is made (`connectionUrl`). The database reads a URL in its own way
(`Location.ofUrl?`): it takes away the scheme as often as it stands in front, ends the path at
the first question mark, and replaces percent escapes. So `%61` leads to the file `a`, `//x` to
the file `x`, and a path with a question mark nowhere, because what stands behind the mark is
no parameter that the database knows.
-/

namespace MailPush

/-! ## Paths -/

/-- A path below another one. -/
def joinPath (base name : String) : String :=
  if base.isEmpty || base.endsWith "/" then base ++ name else base ++ "/" ++ name

/-- The data directory of a user: the one set for data, if it is an absolute path, and otherwise
one below the home directory. A user without a home may have none. -/
def dataDirectory (dataHome home : Option String) : Option String :=
  dataHome.filter (·.startsWith "/") <|> home.map (joinPath · ".local/share")

/-- The directory that holds the repository of a user by default. Without a data directory it is
below the current one. -/
def defaultDirectory (dataHome home : Option String) : String :=
  joinPath ((dataDirectory dataHome home).getD ".") "easpush"

/-- Where the repository of a user is by default. -/
def defaultPath (dataHome home : Option String) : String :=
  joinPath (defaultDirectory dataHome home) "push.db"

/-! ## URLs -/

/-- The scheme of connection URLs. -/
def scheme : String := "sqlite:"

/-- The scheme followed by the mark of an authority. -/
def schemeWithAuthority : String := "sqlite://"

/-- The parameters of a URL that has a missing file made, behind their mark. -/
def creatingQuery : String := "?mode=rwc"

/-- The URL by which the repository at a path is opened. -/
def connectionUrl (path : String) : String := scheme ++ path ++ creatingQuery

/-- What a URL names. -/
inductive Location where
  /-- A database without a file. -/
  | memory
  | file (name : String)
deriving DecidableEq

/-- A text without a given start, however often it is repeated. -/
def dropRepeated (start cs : List Char) : List Char :=
  if start ≠ [] ∧ start.isPrefixOf cs then dropRepeated start (cs.drop start.length) else cs
termination_by cs.length
decreasing_by
  rename_i h
  have hs : 0 < start.length := List.length_pos_iff.2 h.1
  have hc := (List.isPrefixOf_iff_prefix.1 h.2).length_le
  simp only [List.length_drop]
  omega

/-- The bytes of a text whose percent escapes are replaced; a percent sign that starts no escape
stands for itself. -/
def percentDecode : Bytes → Bytes
  | [] => []
  | b :: rest =>
    if b = byte '%' then
      match rest with
      | h :: l :: others =>
        match hexValue? h, hexValue? l with
        | some high, some low => UInt8.ofNat (high * 16 + low) :: percentDecode others
        | _, _ => b :: percentDecode (h :: l :: others)
      | others => b :: percentDecode others
    else b :: percentDecode rest

/-- What the database takes a URL to name. The name ends at the first question mark, and parameters
follow it. Of these only `creatingQuery` is admitted: the URLs of this library have no parameters,
or end with that one, and whatever else comes to stand in front of it makes one that the database
refuses. A name whose escapes yield no text names nothing either. -/
def Location.ofUrl? (url : String) : Option Location :=
  let path := dropRepeated scheme.toList (dropRepeated schemeWithAuthority.toList url.toList)
  let name := path.takeWhile (· != '?')
  let query := path.dropWhile (· != '?')
  if query ≠ [] ∧ query ≠ creatingQuery.toList then none
  else if name = ":memory:".toList then some .memory
  else (textOf? (percentDecode (bytesOf (String.ofList name)))).map .file

end MailPush
