import VardrMap.Lib.Json
import VardrMap.Lib.Regex

/-!
# Redaction

Secrets are replaced in every text before it is stored: header lines whose value is a secret,
values under a sensitive key, credentials of a URL, and tokens that are known by their shape.
-/
namespace VardrMap
open Lib Regex

/-- `PLACEHOLDER`. -/
def placeholder : Text := "[REDACTED]".toList

/-- `SENSITIVE_HEADERS`. -/
def sensitiveHeaders : List Text :=
  ["authorization", "proxy-authorization", "cookie", "set-cookie", "x-api-key", "x-auth-token",
    "x-access-token", "x-csrf-token", "x-session-token", "api-key", "auth-token",
    "session"].map String.toList

/-- `SENSITIVE_KEYS`. -/
def sensitiveKeys : List Text :=
  ["password", "passwd", "secret", "token", "access_token", "refresh_token", "id_token", "api_key",
    "apikey", "client_secret", "private_key", "session_id", "sessionid", "authorization",
    "credential", "credentials", "otp", "mfa_code"].map String.toList

/-- One of these characters. -/
def among (chars : String) (c : Char) : Bool := chars.toList.contains c

/-- `[A-Za-z0-9\-_]`. -/
def nameChar (c : Char) : Bool := c.isAlphanum || among "-_" c

/-- `.`, which does not match a line feed. -/
def dot (c : Char) : Bool := c != '\n'

/-- `\"?[A-Za-z0-9_\-]+\"?`. -/
def keyed : Regex :=
  group "key" (seqs [opt (literal "\""), atLeast 1 (one nameChar), opt (literal "\"")])

/-- `_HEADER_LINE`. -/
def headerLine [Unicode] : Regex :=
  seqs [lineStart, group "name" (atLeast 1 (one nameChar)), star (one Unicode.isSpace), literal ":",
    star (one Unicode.isSpace), group "value" (atLeast 1 (one dot)), lineEnd]

/-- `_KEYED_QUOTED`. -/
def keyedQuoted [Unicode] : Regex :=
  seqs [keyed, star (one Unicode.isSpace), group "sep" (one (among ":=")),
    star (one Unicode.isSpace), group "quote" (one (among "\"'")),
    group "value" (star (alt (one fun c => !among "\"'\\" c) (seq (literal "\\") (one dot)))),
    same "quote"]

/-- `_KEYED_BARE`. -/
def keyedBare [Unicode] : Regex :=
  seqs [keyed, star (one Unicode.isSpace), group "sep" (one (among ":=")),
    star (one Unicode.isSpace), group "value"
      (seq (one fun c => !among "\"'&;,\x7d]\r\n" c && !Unicode.isSpace c)
        (star (one fun c => !among "&;,\x7d]\r\n" c)))]

/-- `_URL_CREDENTIALS`. -/
def urlCredentials [Unicode] : Regex :=
  seqs [group "scheme" (seqs [one Char.isAlpha, star (one fun c => c.isAlphanum || among "+.-" c),
    literal "://"]),
    group "userinfo" (atLeast 1 (one fun c => !among "/@" c && !Unicode.isSpace c)), literal "@"]

/-- `(?i)` of a word. -/
def anyCase (word : String) : Regex :=
  seqs (word.toList.map fun c => one (ignoreCase fun d => d == c))

/-- `_BEARER`. -/
def bearer [Unicode] : Regex :=
  seqs [wordBoundary, group "1" (alt (anyCase "bearer") (alt (anyCase "basic") (anyCase "token"))),
    atLeast 1 (one Unicode.isSpace),
    atLeast 8 (one (ignoreCase fun c => c.isAlphanum || among "-._~+/=" c))]

/-- `_JWT`. -/
def jwt : Regex :=
  seqs [wordBoundary, literal "eyJ", atLeast 5 (one nameChar), literal ".",
    atLeast 5 (one nameChar), literal ".", atLeast 5 (one nameChar), wordBoundary]

section
variable [Unicode]

/-- `_redact_header_line`. -/
def redactHeaderLine (whole : Text) (g : Groups) : Text :=
  if sensitiveHeaders.contains (Unicode.lower (g.get "name")) then
    g.get "name" ++ ": ".toList ++ placeholder
  else whole

/-- The key of a match, without its quotes, is sensitive. -/
def sensitiveKey (g : Groups) : Bool :=
  let quoted := among "\"'"
  sensitiveKeys.contains (Unicode.lower (((g.get "key").dropWhile quoted).rdropWhile quoted))

/-- `_sub_quoted`. -/
def subQuoted (whole : Text) (g : Groups) : Text :=
  if sensitiveKey g then
    g.get "key" ++ g.get "sep" ++ g.get "quote" ++ placeholder ++ g.get "quote"
  else whole

/-- `_sub_bare`. -/
def subBare (whole : Text) (g : Groups) : Text :=
  if sensitiveKey g then g.get "key" ++ g.get "sep" ++ placeholder else whole

variable [WordTable]

/-- `redact_text` without extra keys. -/
def redactText (value : Text) : Text :=
  let text := headerLine.sub redactHeaderLine value
  let text := keyedQuoted.sub subQuoted text
  let text := keyedBare.sub subBare text
  let text := urlCredentials.sub (fun _ g => g.get "scheme" ++ placeholder ++ ['@']) text
  let text := jwt.sub (fun _ _ => placeholder) text
  bearer.sub (fun _ g => g.get "1" ++ ' ' :: placeholder) text

/-- A character without which no pattern matches. -/
def isCue (c : Char) : Bool := among ":=." c || Unicode.isSpace c

omit [WordTable] in
theorem needs_literal {s : String} {c : Char} (hc : c ∈ s.toList) (h : among ":=." c = true) :
    Needs isCue (literal s) := .literal hc (by simp [isCue, h])

omit [WordTable] in
theorem needs_sep : Needs isCue (group "sep" (one (among ":="))) := by
  refine .group (.one fun c hc => ?_)
  rcases List.mem_cons.mp (List.contains_iff_mem.mp hc) with rfl | hc
  · rfl
  · rw [List.mem_singleton.mp hc]
    rfl

/-- A text without cues has nothing to redact. -/
theorem redactText_eq_self {l : Text} (h : ∀ c ∈ l, isCue c = false) : redactText l = l := by
  have hcolon : Needs isCue (literal ":") := needs_literal (c := ':') (by simp) rfl
  have hscheme : Needs isCue (literal "://") := needs_literal (c := ':') (by simp) rfl
  have hdot : Needs isCue (literal ".") := needs_literal (c := '.') (by simp) rfl
  have hspace : Needs isCue (one Unicode.isSpace) := .one fun c hc => by simp [isCue, hc]
  have hheader : Needs isCue headerLine := hcolon.seqs (by simp)
  have hquoted : Needs isCue keyedQuoted := needs_sep.seqs (by simp)
  have hbare : Needs isCue keyedBare := needs_sep.seqs (by simp)
  have hurl : Needs isCue urlCredentials :=
    (Needs.group (hscheme.seqs (by simp))).seqs (List.mem_cons_self ..)
  have hjwt : Needs isCue jwt := hdot.seqs (by simp)
  have hbearer : Needs isCue bearer := (hspace.atLeast 0).seqs (by simp)
  unfold redactText
  simp only [hheader.sub_eq_self _ h, hquoted.sub_eq_self _ h, hbare.sub_eq_self _ h,
    hurl.sub_eq_self _ h, hjwt.sub_eq_self _ h, hbearer.sub_eq_self _ h]

/-- `redact_text` of a string. -/
def redact (s : String) : String := String.ofList (redactText s.toList)

mutual

/-- `clean_tree`: every text of a document is redacted, and no key. -/
def cleanTree : Json → Json
  | .str s => .str (redact s)
  | .arr xs => .arr (cleanTreeList xs)
  | .obj fs => .obj (cleanTreeFields fs)
  | j => j

def cleanTreeList : List Json → List Json
  | [] => []
  | x :: xs => cleanTree x :: cleanTreeList xs

def cleanTreeFields : List (String × Json) → List (String × Json)
  | [] => []
  | (k, x) :: fs => (k, cleanTree x) :: cleanTreeFields fs

end

/-! ## Texts without cues -/

/-- `redact`, which passes over a text without cues. -/
def redactCued (s : String) : String := if s.toList.any isCue then redact s else s

theorem redact_eq_redactCued (s : String) : redact s = redactCued s := by
  unfold redactCued
  split
  · rfl
  · rename_i hcues
    have hnone : ∀ c ∈ s.toList, isCue c = false := by simpa using hcues
    rw [redact, redactText_eq_self hnone, String.ofList_toList]

mutual

/-- `cleanTree`, which passes over texts without cues. -/
def cleanCued : Json → Json
  | .str s => .str (redactCued s)
  | .arr xs => .arr (cleanCuedList xs)
  | .obj fs => .obj (cleanCuedFields fs)
  | j => j

def cleanCuedList : List Json → List Json
  | [] => []
  | x :: xs => cleanCued x :: cleanCuedList xs

def cleanCuedFields : List (String × Json) → List (String × Json)
  | [] => []
  | (k, x) :: fs => (k, cleanCued x) :: cleanCuedFields fs

end

mutual

theorem cleanTree_eq_cleanCued : (j : Json) → cleanTree j = cleanCued j
  | .str s => by rw [cleanTree, cleanCued, redact_eq_redactCued]
  | .arr xs => by rw [cleanTree, cleanCued, cleanTreeList_eq_cleanCuedList xs]
  | .obj fs => by rw [cleanTree, cleanCued, cleanTreeFields_eq_cleanCuedFields fs]
  | .null | .bool _ | .int _ | .float .. | .nonfinite _ => rfl

theorem cleanTreeList_eq_cleanCuedList : (xs : List Json) → cleanTreeList xs = cleanCuedList xs
  | [] => rfl
  | x :: xs => by
    rw [cleanTreeList, cleanCuedList, cleanTree_eq_cleanCued x, cleanTreeList_eq_cleanCuedList xs]

theorem cleanTreeFields_eq_cleanCuedFields :
    (fs : List (String × Json)) → cleanTreeFields fs = cleanCuedFields fs
  | [] => rfl
  | (k, x) :: fs => by
    rw [cleanTreeFields, cleanCuedFields, cleanTree_eq_cleanCued x,
      cleanTreeFields_eq_cleanCuedFields fs]

end

end

end VardrMap
