/-
  Documents: the character data of a written piece of markup.

  A document may begin with a byte-order mark and a declaration of version, encoding and
  independence.  A document given as bytes is read in the encoding it declares; for one that
  is given as text, what it declares does not matter.  Either is in units of 16 bits if its
  first two bytes show that.  Carriage returns are line feeds.

  `characterData` gives all character data of a document, or why it cannot be read.
-/
import SourceScribe.Markup.Encoding
import SourceScribe.Markup.Reader
import SourceScribe.Text.Lines

namespace SourceScribe.Markup

/-- What a document is given as.  The newlines of a file are unified when it is read. -/
inductive Form where
  | text
  | file
  | bytes
deriving DecidableEq

/-- Why a document cannot be read. -/
inductive Fault where
  /-- It is not well-formed. -/
  | malformed
  /-- It declares an encoding that there is not. -/
  | unknownEncoding
  /-- It declares an encoding that does not have one byte for each character. -/
  | wideEncoding
  /-- It declares an encoding that reads nothing. -/
  | unusableEncoding
  /-- It declares an encoding that does not read bytes above ASCII. -/
  | undecodableBytes
deriving DecidableEq

/-! ## The declaration at the start -/

/-- Drops blanks. -/
def skipSpace (cs : List Char) : List Char :=
  cs.dropWhile isSpace

/-- Splits off a text between quotes. -/
def literal? : List Char → Option (List Char × List Char)
  | [] => none
  | q :: cs =>
    if q = '"' || q = '\'' then
      match cs.span (· ≠ q) with
      | (inside, _ :: rest) => some (inside, rest)
      | (_, []) => none
    else none

/-- Splits off a keyword. -/
def keyword? (word : String) (cs : List Char) : Option (List Char) :=
  if word.toList.isPrefixOf cs then some (cs.drop word.length) else none

/-- Whether `c` may stand in a value of the declaration. -/
def isDeclarationChar (c : Char) : Bool :=
  c.isAlphanum || c = '.' || c = '-' || c = '_'

/-- Splits off a name, an equals sign and a quoted value, after blanks.  Nothing is there
    if only blanks are. -/
def assignment? (cs : List Char) :
    Option (Option (List Char × List Char) × List Char) :=
  match cs with
  | [] => some (none, [])
  | c :: cs =>
    if !isSpace c then none
    else
      match skipSpace cs with
      | [] => some (none, [])
      | cs => do
        let (name, rest) := cs.span fun c => !isSpace c && c != '='
        let rest ← keyword? "=" (skipSpace rest)
        let (value, rest) ← literal? (skipSpace rest)
        if name.isEmpty || !value.all isDeclarationChar then none
        return (some (name, value), rest)

/-- What the declaration says: the encoding, and whether the document needs nothing from
    outside. -/
structure Prelude where
  encoding : Option (List Char)
  standalone : Bool

/-- Reads whether the document needs nothing from outside, which ends the declaration. -/
def standalone? (encoding : Option (List Char)) :
    Option (List Char × List Char) × List Char → Option Prelude
  | (none, _) => some ⟨encoding, false⟩
  | (some (name, value), rest) =>
    if name = "standalone".toList && (skipSpace rest).isEmpty then
      if value = "yes".toList then some ⟨encoding, true⟩
      else if value = "no".toList then some ⟨encoding, false⟩
      else none
    else none

/-- Reads the declaration, between `<?xml` and `?>`. -/
def prelude? (cs : List Char) : Option Prelude := do
  let (version, rest) ← assignment? cs
  let (name, _) ← version
  if name != "version".toList then none
  let second ← assignment? rest
  match second with
  | (some (name, value), rest) =>
    if name = "encoding".toList then
      if (value.head?.map Char.isAlpha).getD false then
        standalone? (some value) (← assignment? rest)
      else none
    else standalone? none second
  | (none, _) => standalone? none second

/-- Splits at the first `?>`. -/
def splitInstruction : List Char → Option (List Char × List Char)
  | [] => none
  | '?' :: '>' :: rest => some ([], rest)
  | c :: cs => (splitInstruction cs).map fun p => (c :: p.1, p.2)

/-- Splits off the declaration at the start of a document, if there is one. -/
def splitPrelude (letters : Letters) (cs : List Char) : Option (Prelude × List Char) :=
  match keyword? "<?xml" cs with
  | none => some (⟨none, false⟩, cs)
  | some rest =>
    match rest with
    | [] => none
    | c :: _ =>
      if isNameChar letters c then some (⟨none, false⟩, cs)
      else do
        let (inside, rest) ← splitInstruction rest
        return (← prelude? inside, rest)

/-! ## Encodings -/

/-- Reads bytes in an encoding. -/
def Charset.decode (set : Charset) (bytes : List UInt8) : Except Fault (List Char) :=
  let each (char? : UInt8 → Option Char) : Except Fault (List Char) :=
    match bytes.mapM char? with
    | some cs => .ok cs
    | none => .error .malformed
  match set with
  | .ascii without => each (asciiChar? without)
  | .latin => .ok (bytes.map byteChar)
  | .table first upper =>
    let chars := upper.toList.toArray
    each (tableChar? first chars)
  | .wide => .error .wideEncoding
  | .foreign => .error .malformed
  | .unusable => .error .unusableEncoding
  | .undecodable => .error .undecodableBytes

/-- A document, or the rest of one, as characters, with the letters of its names. -/
structure Decoded where
  letters : Letters
  chars : List Char

/-- What is read if the declared encoding agrees with what the start of a document shows. -/
def agreed (agrees : Bool) (d : Decoded) : Except Fault Decoded :=
  if agrees then .ok d else .error .malformed

/-- Reads the rest of a document in the encoding that its declaration names: `read` are its
    characters as its start shows them, and `bytes` its bytes.  Six encodings are known by
    one name only and have to agree with the start; any other one is used from here on. -/
def decodeAs (order : Option ByteOrder) (name read : List Char) (bytes : List UInt8) :
    Except Fault Decoded :=
  match String.ofList (name.map Char.toLower) with
  | "utf-8" => agreed order.isNone ⟨.standard, read⟩
  | "utf-16" => agreed order.isSome ⟨.extended, read⟩
  | "utf-16le" => agreed (order = some .little) ⟨.extended, read⟩
  | "utf-16be" => agreed (order = some .big) ⟨.extended, read⟩
  | "iso-8859-1" => agreed order.isNone ⟨.extended, bytes.map byteChar⟩
  | "us-ascii" => do agreed order.isNone ⟨.standard, ← (Charset.ascii []).decode bytes⟩
  | _ =>
    match listedCharset? (plainEncodingName name) with
    | some set => (set.decode bytes).map fun cs => ⟨.standard, cs⟩
    | none => .error .unknownEncoding

/-! ## Documents -/

/-- Drops a byte-order mark. -/
def dropMark : List Char → List Char
  | [] => []
  | c :: cs => if c.toNat = 0xFEFF then cs else c :: cs

/-- The characters of a document and their letters, as its start shows them. -/
def opened (order : Option ByteOrder) (s : String) : Decoded :=
  match order with
  | some o => ⟨.extended, wideChars (units o s.toUTF8.data.toList)⟩
  | none => ⟨.standard, dropMark s.toList⟩

/-- The bytes of a document after so many characters of ASCII, of which `rest` are the
    characters. -/
def bytesAfter (order : Option ByteOrder) (s : String) (count : Nat) (rest : List Char) :
    List UInt8 :=
  match order with
  | some _ => s.toUTF8.data.toList.drop (2 * count)
  | none => (String.ofList rest).toUTF8.data.toList

/-- How deep the entities of a document can be inside one another: not deeper than there
    are declarations. -/
def entityDepth (cs : List Char) : Nat :=
  cs.count '!' + 1

/-- The character data of a document of so many bytes without its declaration, which says
    whether it is `standalone`. -/
def bodyData? (size : Nat) (standalone : Bool) (d : Decoded) : Option String := do
  let body := Text.unifyChars d.chars
  let r ← Reader.feed (entityDepth body) (.start d.letters standalone size) body
  if r.isFinished then return String.ofList r.data.reverse else none

/-- What a document is after it was read from where it is given. -/
def Form.received (form : Form) (s : String) : String :=
  match form with
  | .file => Text.unifyNewlines s
  | _ => s

/-- The character data of a document. -/
def characterData (form : Form) (given : String) : Except Fault String :=
  let s := form.received given
  let order := wideOrder? s.toUTF8.data.toList
  let whole := opened order s
  match splitPrelude whole.letters whole.chars with
  | none => .error .malformed
  | some (prelude, rest) => do
    let body ← match form, prelude.encoding with
      | .bytes, some name =>
        decodeAs order name rest
          (bytesAfter order s (whole.chars.length - rest.length) rest)
      | _, _ => .ok { whole with chars := rest }
    match bodyData? s.utf8ByteSize prelude.standalone body with
    | some data => .ok data
    | none => .error .malformed

end SourceScribe.Markup
