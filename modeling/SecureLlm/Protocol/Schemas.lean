import SecureLlm.Library.Base64
import SecureLlm.Library.Text
import SecureLlm.Protocol.Errors

/-!
# Handshake Messages

The two messages of the handshake, the protocol's version texts, and the two
text operations that both sides apply to them: strict base64 and stripping.

The texts of a request are the client's to choose. JSON can escape half of a
surrogate pair, and what is parsed is then a text that no encoding has bytes for.

## Main definitions

* `HandshakeRequest`, `HandshakeResponse`: The messages.
* `protocolVersion`, `protocolLabel`: The version texts.
* `b64d`, `b64dText`, `b64e`: Base64 as both sides' helpers apply it.
* `strip`: `str.strip()`.
-/

namespace SecureLlm

open Library

def protocolVersion : String := "1.0"
def protocolName : String := "secure-llm"
def protocolLabel : String := protocolName ++ "/" ++ protocolVersion

structure HandshakeRequest where
  protocol : Text := protocolVersion
  clientStaticPk : Text
  clientEphemeralPk : Text
  timestamp : ℤ
  transcriptSig : Text
  serverHost : Option Text := none
  deriving DecidableEq, Repr

structure HandshakeResponse where
  protocol : String := protocolVersion
  sessionId : String
  serverStaticPk : String
  serverEd25519Pk : String
  serverEphemeralPk : String
  ttlSeconds : ℤ
  serverSig : String
  noncePrefixC2s : String
  noncePrefixS2c : String
  attestationReport : Option String := none
  deriving DecidableEq, Repr

/-- `base64.b64decode(s.encode("ascii"), validate=True)`. -/
def b64d (s : String) : Except Exc Bytes :=
  match b64decode true s with
  | some b => .ok b
  | none => .error .binasciiError

/-- The same of a text that may have surrogates in it, which are not ASCII. -/
def b64dText (t : Text) : Except Exc Bytes :=
  match t.toString? with
  | some s => b64d s
  | none => .error (.unicodeEncodeError "ascii")

/-- `base64.b64encode(b).decode("ascii")`. -/
def b64e (b : Bytes) : String := b64encode b

@[simp] theorem b64d_b64e (b : Bytes) : b64d (b64e b) = .ok b := by
  rw [b64d, b64e, b64decode_b64encode]

theorem b64dText_ofString (s : String) : b64dText s = b64d s := by
  rw [b64dText, Text.toString?_ofString]

@[simp] theorem b64dText_b64e (b : Bytes) : b64dText (b64e b) = .ok b := by
  rw [b64dText_ofString, b64d_b64e]

/-- The characters `str.strip()` takes off the ends. -/
def isSpace (c : Char) : Bool :=
  let n := c.toNat
  9 ≤ n && n ≤ 13 || 0x1c ≤ n && n ≤ 0x20 || n == 0x85 || n == 0xa0 || n == 0x1680 ||
    0x2000 ≤ n && n ≤ 0x200a || n == 0x2028 || n == 0x2029 || n == 0x202f || n == 0x205f ||
    n == 0x3000

/-- `s.strip()`. -/
def strip (s : String) : String :=
  String.ofList ((s.toList.dropWhile isSpace).reverse.dropWhile isSpace).reverse

/-- A string is stripped as the text that it is. -/
theorem strip_text (s : String) : (Text.ofString s).strip isSpace = strip s :=
  Text.strip_ofString isSpace s

/-- A blank before a text without blanks is taken off, and nothing else. -/
theorem strip_blank_cons (cs : List Char) (h : ∀ c ∈ cs, isSpace c = false) :
    strip (String.ofList (' ' :: cs)) = String.ofList cs := by
  have hkeep : ∀ ds : List Char, (∀ d ∈ ds, isSpace d = false) → ds.dropWhile isSpace = ds := by
    intro ds hds
    cases ds with
    | nil => rfl
    | cons d ds => rw [List.dropWhile_cons_of_neg (by rw [hds d List.mem_cons_self]; decide)]
  unfold strip
  rw [String.toList_ofList, List.dropWhile_cons_of_pos (by decide), hkeep cs h,
    hkeep cs.reverse fun c hc => h c (List.mem_reverse.mp hc), List.reverse_reverse]

/-- `s.split("/")[-1]`. -/
def lastSegment (s : String) : String :=
  String.ofList (s.toList.reverse.takeWhile (· ≠ '/')).reverse

/-- The short form of the label is the version. -/
theorem lastSegment_protocolLabel : lastSegment protocolLabel = protocolVersion := by decide

end SecureLlm
