import ReleaseValidation.Foundations.Regexes

/-! # Versions in tags and release texts

Versions are read from the tags of releases and, with regular expressions, from the texts
of releases. Three services have their own copies of the expressions, which differ in how
they find the SDK version. The character classes of the expressions and the decimal
values of digits are those of the interpreter's character tables, a parameter here.
-/
namespace ReleaseValidation.Catalog
open Regexes

structure Characters where
  decimal : Char → Option ℕ
  word : Char → Bool
  space : Char → Bool

/-- The character tables on the ASCII characters. -/
def Characters.ascii : Characters where
  decimal c := if c.isDigit then some (c.toNat - '0'.toNat) else none
  word c := c.isAlphanum || c == '_'
  space c := c.isWhitespace

/-- `s.lstrip("v")`. -/
def lstripV (s : String) : String := String.ofList (s.toList.dropWhile (· == 'v'))

/-- `f"v{s}"`. -/
def withV (s : String) : String := "v" ++ s

/-- `s[:5000]`. -/
def clip5000 (s : String) : String := String.ofList (s.toList.take 5000)

section Numbers
variable (ch : Characters)

/-- The digits after the first one, single underscores between digits allowed. -/
def moreDigits : ℕ → List Char → Option ℕ
  | n, [] => some n
  | n, '_' :: c :: cs => (ch.decimal c).bind fun d => moreDigits (10 * n + d) cs
  | n, c :: cs => (ch.decimal c).bind fun d => moreDigits (10 * n + d) cs

def digits : List Char → Option ℕ
  | [] => none
  | c :: cs => (ch.decimal c).bind fun d => moreDigits ch d cs

/-- `s.strip()`. -/
def strip (s : String) : String :=
  String.ofList ((s.toList.dropWhile ch.space).reverse.dropWhile ch.space).reverse

/-- `int(s)`, `none` for a `ValueError`. -/
def parseInt (s : String) : Option ℤ :=
  match (strip ch s).toList with
  | '-' :: cs => (digits ch cs).map fun n => -(n : ℤ)
  | '+' :: cs => (digits ch cs).map fun n => (n : ℤ)
  | cs => (digits ch cs).map fun n => (n : ℤ)

/-- `int(s)`, with the interpreter's limit on the digits of a number. -/
def limitedInt (s : String) : Option ℤ :=
  if 4300 < (s.toList.filter fun c => (ch.decimal c).isSome).length then none else parseInt ch s

/-- `int(tag.lstrip("v").split(".")[0])`. -/
def leadingNumber (tag : String) : Option ℤ :=
  parseInt ch (String.ofList ((lstripV tag).toList.takeWhile (· != '.')))

/-- `node_major_version`. -/
def nodeMajorVersion (tag : String) : ℤ := (leadingNumber ch tag).getD 1

/-- `derive_image_tag`. -/
def deriveImageTag (nodeTag : String) (sdkVersion : Option String) : String :=
  match sdkVersion with
  | some sdk =>
    if 2 ≤ nodeMajorVersion ch nodeTag ∧ sdk ≠ "" then "cartesi/rollups-runtime:" ++ sdk
    else "cartesi/rollups-node:" ++ lstripV nodeTag
  | none => "cartesi/rollups-node:" ++ lstripV nodeTag

end Numbers

section Expressions
variable (ch : Characters)

/-- Whether a character matches a lower-case one regardless of case: besides the capital, the
long s, the two i's with and without a dot, and the Kelvin sign. -/
def sameLetter (c d : Char) : Bool :=
  d.toLower == c || (c == 's' && d == 'ſ') || (c == 'i' && (d == 'İ' || d == 'ı')) || (c == 'k' && d == 'K')

def lit (s : String) : Regex Char := Regex.literal sameLetter s.toList

def digit : Char → Bool := fun c => (ch.decimal c).isSome

def optV : Regex Char := (lit "v").opt

/-- `[@: ]+`. -/
def separators : Regex Char := Regex.plus fun c => c == '@' || c == ':' || c == ' '

/-- `\d+\.\d+\.\d+(?:-\w+\.\d+)?`. -/
def version : Regex Char :=
  Regex.chain [Regex.plus (digit ch), .one (· == '.'), Regex.plus (digit ch), .one (· == '.'), Regex.plus (digit ch),
    (Regex.chain [.one (· == '-'), Regex.plus ch.word, .one (· == '.'), Regex.plus (digit ch)]).opt]

/-- `_NODE_BUMP_RE`. -/
def nodeBumpRe : Pattern Char where
  lead := Regex.chain [lit "rollups", .one (fun c => c == '-' || c == ' '), lit "node",
    .many (fun c => !(decide ('0' ≤ c) && decide (c ≤ '9'))), optV]
  group := version ch

/-- `_DEVNET_IN_BODY_RE`. -/
def devnetInBodyRe : Pattern Char where
  lead := Regex.chain [lit "@cartesi/devnet", separators, optV]
  group := version ch

/-- `_CONTRACTS_IN_BODY_RE`. -/
def contractsInBodyRe : Pattern Char where
  lead := Regex.chain [.alt (lit "@cartesi/rollups-contracts") (lit "rollups-contracts"), separators, optV]
  group := version ch

/-- `_SDK_PATTERNS` of the resolver, in their order. -/
def sdkPatterns : List (Pattern Char) :=
  [⟨Regex.chain [lit "@cartesi/sdk", separators], version ch⟩, ⟨lit "cartesi/rollups-runtime:", version ch⟩,
    ⟨lit "cartesi/rollups-database:", version ch⟩]

/-- `_SDK_IN_BODY_RE` of the watcher. -/
def sdkInBodyRe : Pattern Char where
  lead := Regex.chain [.alt (Regex.chain [lit "@cartesi/sdk", separators])
    (.alt (lit "cartesi/rollups-runtime:") (lit "cartesi/rollups-database:")), optV]
  group := version ch

/-- `_SDK_IN_BODY_RE` of the orchestrator. -/
def orchestratorSdkInBodyRe : Pattern Char where
  lead := Regex.chain [.alt (Regex.chain [lit "@cartesi/sdk", separators]) (lit "cartesi/rollups-runtime:"), optV]
  group := version ch

/-- `re.search(body)` and `group(1)` of its match. -/
def searchBody (e : Pattern Char) (body : String) : Option String := (e.search body.toList).map String.ofList

/-- `_extract_sdk_from_body`. -/
def extractSdkFromBody (body : String) : Option String := (sdkPatterns ch).findSome? fun e => searchBody e body

structure Versions where
  sdk : Option String
  cli : Option String
  devnet : Option String
  contracts : Option String
  deriving DecidableEq, Repr

def Versions.unknown : Versions := ⟨none, none, none, none⟩

/-- What `extract_versions_from_cli_body` returns. -/
structure BodyVersions where
  sdk : Option String
  devnet : Option String
  contracts : Option String
  node : Option String
  deriving DecidableEq, Repr

def extractVersionsFromCliBody (body : String) : BodyVersions where
  sdk := extractSdkFromBody ch body
  devnet := searchBody (devnetInBodyRe ch) body
  contracts := searchBody (contractsInBodyRe ch) body
  node := searchBody (nodeBumpRe ch) body

theorem version_consumes : (version ch).Consumes := (Regex.consumes_plus _).seq_left

theorem searchBody_ne_empty {e : Pattern Char} (he : e.group.Consumes) {body v : String}
    (h : searchBody e body = some v) : v ≠ "" := by
  obtain ⟨x, hx, rfl⟩ := Option.map_eq_some_iff.mp h
  intro hempty
  exact e.search_ne_nil he hx (by simpa using congrArg String.toList hempty)

theorem withV_ne_empty (s : String) : withV s ≠ "" := by
  simp [withV]

end Expressions

end ReleaseValidation.Catalog
