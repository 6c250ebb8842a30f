import Firestone.Error
import Firestone.Lib.Multipart
import Firestone.Lib.Utf8

/-!
# Cloud-init user data

User data is the user's own part, a cloud-config or a script, and the part that Firestone renders, in one multipart
document with a fixed boundary. `readMultipart_renderMultipart_iff` says when a reader gets both parts back: the boundary
is not chosen by what the parts hold, so a line of a part that starts with the delimiter ends that part.
-/

namespace Firestone.Boot

open Firestone.Lib

/-! ## User parts -/

inductive UserDataKind
  | cloudConfig | shellScript
  deriving DecidableEq, Repr

def UserDataKind.contentType : UserDataKind → String
  | .cloudConfig => "text/cloud-config"
  | .shellScript => "text/x-shellscript"

def UserDataKind.filename : UserDataKind → String
  | .cloudConfig => "user-cloud-config.yaml"
  | .shellScript => "user-script.sh"

structure UserDataPart where
  kind : UserDataKind
  bytes : Bytes
  deriving DecidableEq

/-- `str::from_utf8` succeeds. -/
def isUtf8 (data : Bytes) : Bool := (ByteArray.mk data.toArray).validateUTF8

/-- The first line, without a carriage return at its end. -/
def firstLine (data : Bytes) : Bytes :=
  let line := data.takeWhile (· ≠ 10)
  if line.getLast? = some 13 then line.dropLast else line

def parseUserData (data : Bytes) (sourceLabel : String) : Res UserDataPart :=
  if ¬ isUtf8 data then
    .error ((FirestoneError.new .invalidSpec s!"cloud_init.user_data {sourceLabel} is not UTF-8").withHint
      "save user-data as UTF-8 without changing its cloud-init header")
  else if firstLine data = bytes "#cloud-config" then .ok ⟨.cloudConfig, data⟩
  else if (bytes "#!").isPrefixOf (firstLine data) then .ok ⟨.shellScript, data⟩
  else
    .error ((FirestoneError.new .invalidSpec s!"cloud_init.user_data {sourceLabel} has an unsupported first line").withHint
      "start user-data with '#cloud-config' or a '#!' interpreter line")

def maxInlineUserDataBytes : Nat := 32 * 1024

def readInlineUserData (inlineText : String) : Res UserDataPart :=
  if maxInlineUserDataBytes < inlineText.utf8ByteSize then
    .error { kind := .invalidSpec
             message := s!"cloud_init.user_data_inline is {inlineText.utf8ByteSize} bytes and exceeds 32 KiB"
             hint := some "reduce inline user-data to 32 KiB or move it to a 'cloud_init.user_data' file"
             field := some "cloud_init.user_data_inline" }
  else parseUserData (bytes inlineText) "inline value"

theorem parseUserData_bytes {data : Bytes} {sourceLabel : String} {part : UserDataPart}
    (h : parseUserData data sourceLabel = .ok part) : part.bytes = data := by
  unfold parseUserData at h
  split at h
  · cases h
  split at h
  · cases h
    rfl
  split at h
  · cases h
    rfl
  · cases h

/-! ## The document -/

def mimeBoundary : Bytes := bytes "===============firestone=="

/-- The header fields of a part. -/
def partFields (contentType filename : String) : Bytes :=
  bytes "Content-Type: " ++ bytes contentType ++
    bytes "; charset=\"utf-8\"\r\nContent-Disposition: attachment; filename=\"" ++ bytes filename ++ bytes "\""

def appendMimePart (document : Bytes) (contentType filename : String) (body : Bytes) : Bytes :=
  document ++ bytes "--" ++ mimeBoundary ++ bytes "\r\n" ++ partFields contentType filename ++ bytes "\r\n\r\n" ++ body ++
    bytes "\r\n"

def renderMultipart (userPart : Option UserDataPart) (firestonePart : Option Bytes) : Bytes :=
  if userPart.isNone ∧ firestonePart.isNone then []
  else
    let document := bytes "Content-Type: multipart/mixed; boundary=\"" ++ mimeBoundary ++
      bytes "\"\r\nMIME-Version: 1.0\r\n\r\n"
    let document := match userPart with
      | some part => appendMimePart document part.kind.contentType part.kind.filename part.bytes
      | none => document
    let document := match firestonePart with
      | some part => appendMimePart document "text/cloud-config" "firestone-cloud-config.yaml" part
      | none => document
    document ++ bytes "--" ++ mimeBoundary ++ bytes "--\r\n"

/-- The header fields of the document. -/
def documentFields : Bytes :=
  bytes "Content-Type: multipart/mixed; boundary=\"" ++ mimeBoundary ++ bytes "\"\r\nMIME-Version: 1.0"

def firestoneFields : Bytes := partFields "text/cloud-config" "firestone-cloud-config.yaml"

def UserDataPart.fields (part : UserDataPart) : Bytes := partFields part.kind.contentType part.kind.filename

/-- The document is its header fields, an empty line and the parts. -/
theorem renderMultipart_eq (part : UserDataPart) (firestone : Bytes) :
    renderMultipart (some part) (some firestone) = documentFields ++ (blankLine ++
      (dashes ++ mimeBoundary ++ encodeParts mimeBoundary [(part.fields, part.bytes), (firestoneFields, firestone)])) := by
  have hcrlf : bytes "\r\n" = crlf := by decide
  have hblank : bytes "\r\n\r\n" = crlf ++ crlf := by decide
  have hdashes : bytes "--" = dashes := by decide
  have hend : bytes "--\r\n" = dashes ++ crlf := by decide
  have hfields : bytes "\"\r\nMIME-Version: 1.0\r\n\r\n" = bytes "\"\r\nMIME-Version: 1.0" ++ blankLine := by decide
  have hdelimiter : delimiter mimeBoundary = crlf ++ dashes ++ mimeBoundary := rfl
  simp only [renderMultipart, appendMimePart, encodeParts, documentFields, UserDataPart.fields, firestoneFields, hcrlf, hblank,
    hdashes, hend, hfields, hdelimiter, Option.isNone_some, Bool.false_eq_true, false_and, if_false, List.append_assoc]

theorem readMultipart_renderMultipart (part : UserDataPart) (firestone : Bytes) :
    readMultipart (renderMultipart (some part) (some firestone)) = some (readParts mimeBoundary
      (encodeParts mimeBoundary [(part.fields, part.bytes), (firestoneFields, firestone)])) := by
  have hok : fieldsOk documentFields = true := by decide
  have hdeclared : declaredBoundary documentFields = some mimeBoundary := by decide
  have hfields : ∀ rest, breakOn blankLine (documentFields ++ (blankLine ++ rest)) = some (documentFields, rest) := by
    intro rest
    have hskip : breakOn blankLine (documentFields ++ (blankLine ++ rest)) =
        (breakOn blankLine (blankLine ++ rest)).map fun p => (documentFields ++ p.1, p.2) :=
      breakOn_skip fun t ht hsuffix =>
        (@not_prefix_fields mimeBoundary _ hok t ht (hsuffix.trans (List.suffix_append _ _)) (crlf ++ rest)).1
    have hblank : breakOn blankLine (blankLine ++ rest) = some ([], rest) := breakOn_append (List.cons_ne_nil _ _) rest
    rw [hskip, hblank, Option.map_some, List.append_nil]
  have hfirst : ∀ rest, breakOn (delimiter mimeBoundary) (crlf ++ (dashes ++ mimeBoundary ++ rest)) = some ([], rest) :=
    fun rest => breakOn_append (List.cons_ne_nil _ _) rest
  rw [renderMultipart_eq, readMultipart, hfields]
  simp only [Option.bind_eq_bind, Option.bind_some, hdeclared, hfirst]

theorem fieldsOk_partFields (kind : UserDataKind) : fieldsOk (partFields kind.contentType kind.filename) = true := by
  cases kind <;> decide

/-- Both parts are read back exactly when no line of them starts with the delimiter. -/
theorem readMultipart_renderMultipart_iff (part : UserDataPart) (firestone : Bytes) :
    readMultipart (renderMultipart (some part) (some firestone)) = some [part.bytes, firestone] ↔
      Clean mimeBoundary part.bytes ∧ Clean mimeBoundary firestone := by
  have hfirestone : fieldsOk firestoneFields = true := by decide
  have hparts : ∀ p ∈ [(part.fields, part.bytes), (firestoneFields, firestone)], fieldsOk p.1 = true := by
    simp [UserDataPart.fields, fieldsOk_partFields, hfirestone]
  have hiff := @readParts_encodeParts_iff mimeBoundary (by decide) _ hparts
  rw [readMultipart_renderMultipart, Option.some.injEq]
  simpa using hiff

/-- **Multipart user data keeps its parts** exactly when no line of the user's body or of Firestone's starts with the
delimiter of the fixed boundary. -/
theorem userData_parts_iff {data : Bytes} {sourceLabel : String} {part : UserDataPart}
    (h : parseUserData data sourceLabel = .ok part) (firestone : Bytes) :
    readMultipart (renderMultipart (some part) (some firestone)) = some [data, firestone] ↔
      Clean mimeBoundary data ∧ Clean mimeBoundary firestone := by
  have hdata := parseUserData_bytes h
  subst hdata
  exact readMultipart_renderMultipart_iff part firestone

theorem isUtf8_bytes (text : String) : isUtf8 (bytes text) = true := by
  rw [isUtf8, toByteArray_bytes, ByteArray.validateUTF8_eq_true_iff]
  exact text.isValidUTF8

theorem userData_parts_iff_script : readMultipart (renderMultipart (some ⟨.shellScript, bytes "#!/bin/sh\r\n--firestone"⟩)
    (some (bytes "#cloud-config\n"))) = some [bytes "#!/bin/sh\r\n--firestone", bytes "#cloud-config\n"] := by
  have haccepted : parseUserData (bytes "#!/bin/sh\r\n--firestone") "inline value" =
      .ok ⟨.shellScript, bytes "#!/bin/sh\r\n--firestone"⟩ := by
    rw [parseUserData, isUtf8_bytes]
    decide
  refine (userData_parts_iff haccepted (bytes "#cloud-config\n")).mpr ⟨?_, ?_⟩
  · unfold Clean
    decide
  · unfold Clean
    decide

/-- A script with a line that is the delimiter is accepted, and a reader does not get it back, whatever Firestone's part. -/
theorem userData_boundary_line : ∃ part, readInlineUserData "#!/bin/sh\r\n--===============firestone==\r\n" = .ok part ∧
    ∀ firestone, readMultipart (renderMultipart (some part) (some firestone)) ≠
      some [bytes "#!/bin/sh\r\n--===============firestone==\r\n", firestone] := by
  refine ⟨⟨.shellScript, bytes "#!/bin/sh\r\n--===============firestone==\r\n"⟩, ?_, fun firestone hread => ?_⟩
  · rw [readInlineUserData, if_neg (by decide), parseUserData, isUtf8_bytes]
    decide
  · obtain ⟨hclean, -⟩ := (readMultipart_renderMultipart_iff _ firestone).mp hread
    refine hclean ?_
    decide

end Firestone.Boot
