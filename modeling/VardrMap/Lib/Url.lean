import VardrMap.Lib.Ip
import VardrMap.Lib.Json

/-!
# Splitting a URL into its five components

The generic-syntax reader of the standard library: leading control characters are
dropped and tabs and line breaks removed, the scheme is recognised by its characters,
and the authority ends at the first of `/`, `?` and `#`. User information ends at the
last `@` of the authority; a bracketed host must be an IP literal.
-/
namespace Lib

/-- `SplitResult`: the five components. -/
structure SplitUrl where
  scheme : Text
  netloc : Text
  path : Text
  query : Text
  fragment : Text
  deriving DecidableEq

namespace Url

/-- A control character or the blank, dropped at the front of a URL. -/
def isC0OrSpace (c : Char) : Bool := c.toNat ≤ 32

/-- A tab or line break, dropped anywhere in a URL. -/
def isUnsafe (c : Char) : Bool := c == '\t' || c == '\r' || c == '\n'

def schemeChar (c : Char) : Bool :=
  c.isAlphanum || c == '+' || c == '-' || c == '.'

/-- A character that ends the authority. -/
def endsAuthority (c : Char) : Bool := c == '/' || c == '?' || c == '#'

theorem asciiSpace_isC0 {c : Char} (h : asciiSpace c = true) :
    isAscii c = true ∧ isC0OrSpace c = true := by
  simp only [asciiSpace, Bool.or_eq_true, Bool.and_eq_true, decide_eq_true_eq] at h
  simp only [isAscii, isC0OrSpace, decide_eq_true_eq]
  omega

theorem isUnsafe_asciiSpace {c : Char} (h : isUnsafe c = true) :
    isAscii c = true ∧ asciiSpace c = true := by
  simp only [isUnsafe, Bool.or_eq_true, beq_iff_eq] at h
  rcases h with (rfl | rfl) | rfl <;> decide

/-- What a scheme character is not. -/
theorem schemeChar_spec {c : Char} (h : schemeChar c = true) :
    isAscii c = true ∧ c ≠ ':' ∧ isUnsafe c = false ∧ asciiSpace c = false ∧
      isC0OrSpace c = false := by
  have hn : 33 ≤ c.toNat ∧ c.toNat ≤ 122 ∧ c.toNat ≠ 58 := by
    delta schemeChar Char.isAlphanum Char.isAlpha Char.isUpper Char.isLower Char.isDigit at h
    simp only [Bool.or_eq_true, Bool.and_eq_true, decide_eq_true_eq, beq_iff_eq,
      UInt32.le_iff_toNat_le, ge_iff_le] at h
    have hc : c.toNat = c.val.toNat := rfl
    have hA : 'A'.val.toNat = 65 := rfl
    have hZ : 'Z'.val.toNat = 90 := rfl
    have ha : 'a'.val.toNat = 97 := rfl
    have hz : 'z'.val.toNat = 122 := rfl
    have h0 : '0'.val.toNat = 48 := rfl
    have h9 : '9'.val.toNat = 57 := rfl
    rcases h with ((h | rfl) | rfl) | rfl
    · omega
    all_goals decide
  have hcolon : c ≠ ':' := by
    rintro rfl
    exact hn.2.2 rfl
  refine ⟨?_, hcolon, ?_, ?_, ?_⟩
  · simp only [isAscii, decide_eq_true_eq]
    omega
  · simp only [isUnsafe, Bool.or_eq_false_iff, beq_eq_false_iff_ne]
    refine ⟨⟨?_, ?_⟩, ?_⟩ <;> · rintro rfl; exact absurd hn.1 (by decide)
  · simp only [asciiSpace, Bool.or_eq_false_iff, Bool.and_eq_false_iff, decide_eq_false_iff_not]
    omega
  · simp only [isC0OrSpace, decide_eq_false_iff_not]
    omega

/-- The scheme in lower case and the text after its colon. -/
def scheme? (url : Text) : Option (Text × Text) :=
  let s := Text.before ':' url
  if url.contains ':' && s.head?.any Char.isAlpha && s.all schemeChar then
    some (s.map Char.toLower, Text.after ':' url)
  else none

/-- The host and port text after the user information. -/
def hostinfo (netloc : Text) : Text × Text :=
  let info := Text.afterLast '@' netloc
  if info.contains '[' then
    let bracketed := Text.after '[' info
    (Text.before ']' bracketed, Text.after ':' (Text.after ']' bracketed))
  else (Text.before ':' info, Text.after ':' info)

def hexDigits (l : Text) : Bool := !l.isEmpty && l.all fun c => (Ip.hexValue c).isSome

/-- `_check_bracketed_host`: a version 6 address, or the syntax of a later version. -/
def bracketedHost (host : Text) : Bool :=
  match host with
  | 'v' :: rest =>
    rest.contains '.' && hexDigits (Text.before '.' rest) && !(Text.after '.' rest).isEmpty
  | _ =>
    match Ip.address host with
    | some (.v6 ..) => true
    | _ => false

/-- `_check_bracketed_netloc`: nothing before the bracket, only a port after it. -/
def bracketedNetloc (netloc : Text) : Bool :=
  let info := Text.afterLast '@' netloc
  if info.contains '[' then
    let rest := Text.after ']' (Text.after '[' info)
    (Text.before '[' info).isEmpty && (rest.isEmpty || rest.head? == some ':') &&
      bracketedHost (Text.before ']' (Text.after '[' info))
  else bracketedHost (Text.before ':' info)

variable [Unicode]

/-- `_checknetloc`: compatibility normalisation must not produce a delimiter. -/
def checkNetloc (netloc : Text) : Bool :=
  let n := netloc.filter fun c => !"@:#?".toList.contains c
  netloc.all isAscii || Unicode.nfkc n == n ||
    !(Unicode.nfkc n).any fun c => "/?#@:".toList.contains c

/-- The path, query and fragment of what follows the authority. -/
def tailParts (scheme netloc rest : Text) : SplitUrl :=
  let url := Text.before '#' rest
  { scheme, netloc
    path := Text.before '?' url
    query := Text.after '?' url
    fragment := Text.after '#' rest }

/-- `urlsplit(url)`. -/
def urlsplit (url : Text) : Except Exn SplitUrl :=
  let url := (url.dropWhile isC0OrSpace).filter fun c => !isUnsafe c
  let (scheme, url) := (scheme? url).getD ([], url)
  match url with
  | '/' :: '/' :: rest =>
    let netloc := rest.takeWhile fun c => !endsAuthority c
    let bracket := netloc.contains '['
    if bracket != netloc.contains ']' then .error .valueError
    else if bracket && !bracketedNetloc netloc then .error .valueError
    else if !checkNetloc netloc then .error .valueError
    else .ok (tailParts scheme netloc (rest.dropWhile fun c => !endsAuthority c))
  | _ => .ok (tailParts scheme [] url)

end Url

namespace SplitUrl

/-- `parsed.hostname`: in lower case up to a zone, `None` when there is no host. -/
def hostname [Unicode] (u : SplitUrl) : Option Text :=
  let host := (Url.hostinfo u.netloc).1
  if host.isEmpty then none
  else if host.contains '%' then
    some (Unicode.lower (Text.before '%' host) ++ '%' :: Text.after '%' host)
  else some (Unicode.lower host)

/-- `parsed.port`: ASCII digits up to 65535, or an exception. -/
def port [Unicode] (u : SplitUrl) : Except Exn (Option ℕ) :=
  let port := (Url.hostinfo u.netloc).2
  if port.isEmpty then .ok none
  else if !port.all Char.isDigit then .error .valueError
  else
    match Text.toInt? port with
    | some n => if n ≤ 65535 then .ok (some n) else .error .valueError
    | none => .error .valueError

/-- `parsed.username`: present whenever the authority holds an `@`. -/
def username (u : SplitUrl) : Option Text :=
  if u.netloc.contains '@' then
    some (Text.before ':' (u.netloc.take (u.netloc.length - (Text.afterLast '@' u.netloc).length - 1)))
  else none

end SplitUrl
end Lib
