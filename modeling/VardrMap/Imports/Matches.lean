import VardrMap.Imports

/-!
# The identity of a dalfox match

A match has no identifier of its own. Its key is made of the URL without query and fragment,
the injection context with the parameter, and the tier. The three are compared with what was
reported: URLs are kept in part or not at all, and the context and the parameter are written
into one text that is cut off.
-/
namespace VardrMap.Imports
open Lib Assets Parsers

/-! ## The base of a URL -/

/-- A URL without query and fragment. -/
def beforeQuery (l : Text) : Text := Text.before '?' (Text.before '#' l)

/-- A URL with its scheme in lower case. -/
def lowerScheme (l : Text) : Text := (Text.before ':' l).map Char.toLower ++ l.dropWhile (· != ':')

/-- A URL as it is split: nothing before it, and no tabs and line breaks in it. -/
def tidy (l : Text) : Text := (l.dropWhile Url.isC0OrSpace).filter fun c => !Url.isUnsafe c

theorem beforeQuery_append {a : Text} (ha : ∀ c ∈ a, c ≠ '?' ∧ c ≠ '#') (b : Text) :
    beforeQuery (a ++ b) = a ++ beforeQuery b := by
  have hhash : Text.before '#' (a ++ b) = a ++ Text.before '#' b :=
    List.takeWhile_append_of_pos fun c hc => by simpa using (ha c hc).2
  have hquery : Text.before '?' (a ++ Text.before '#' b) = a ++ beforeQuery b :=
    List.takeWhile_append_of_pos fun c hc => by simpa using (ha c hc).1
  rw [beforeQuery, hhash, hquery]

theorem lowerScheme_append {a : Text} (ha : ':' ∉ a) (b : Text) :
    lowerScheme (a ++ ':' :: b) = a.map Char.toLower ++ ':' :: b := by
  have hpos : ∀ c ∈ a, (c != ':') = true := fun c hc => by
    simpa using fun h : c = ':' => ha (h ▸ hc)
  unfold lowerScheme Text.before
  rw [List.takeWhile_append_of_pos hpos, List.dropWhile_append_of_pos hpos]
  simp

/-- A scheme is what stands before the first colon. -/
theorem scheme?_eq_some {url s rest : Text} (h : Url.scheme? url = some (s, rest)) :
    s = (Text.before ':' url).map Char.toLower ∧ url = Text.before ':' url ++ ':' :: rest ∧
      ∀ c ∈ Text.before ':' url, Url.schemeChar c = true := by
  unfold Url.scheme? at h
  dsimp only at h
  split at h
  · rename_i hs
    simp only [Bool.and_eq_true, List.contains_iff_mem, List.all_eq_true] at hs
    cases h
    exact ⟨rfl, (Text.before_append_after hs.1.1).symm, hs.2⟩
  · cases h

variable [Unicode]

/-- A URL with scheme and authority is split so that its base can be put together again. -/
theorem urlsplit_base {url : Text} {parts : SplitUrl} (h : Url.urlsplit url = .ok parts)
    (hscheme : parts.scheme ≠ []) (hnetloc : parts.netloc ≠ []) :
    parts.scheme ++ "://".toList ++ parts.netloc ++ parts.path =
      lowerScheme (beforeQuery (tidy url)) := by
  unfold Url.urlsplit at h
  simp only [← tidy.eq_def] at h
  cases hs : Url.scheme? (tidy url) with
  | none =>
    -- without a scheme
    rw [hs, Option.getD_none] at h
    refine absurd ?_ hscheme
    split at h
    · repeat' split at h
      all_goals cases h
      rfl
    · cases h
      rfl
  | some p =>
    obtain ⟨s, rest⟩ := p
    rw [hs, Option.getD_some] at h
    obtain ⟨hlower, htext, hchars⟩ := scheme?_eq_some hs
    split at h
    · rename_i tail htail
      obtain rfl : rest = '/' :: '/' :: tail := htail
      repeat' split at h
      all_goals cases h
      have hpre : ∀ c ∈ Text.before ':' (tidy url) ++ "://".toList, c ≠ '?' ∧ c ≠ '#' := by
        intro c hc
        rcases List.mem_append.mp hc with hc | hc
        · have hc := hchars c hc
          constructor <;> (rintro rfl; exact absurd hc (by decide))
        · have hslash : ∀ c ∈ "://".toList, c ≠ '?' ∧ c ≠ '#' := by simp
          exact hslash c hc
      have hnet : ∀ c ∈ tail.takeWhile fun c => !Url.endsAuthority c, c ≠ '?' ∧ c ≠ '#' := by
        intro c hc
        have hc := List.mem_takeWhile_imp hc
        constructor <;> (rintro rfl; exact absurd hc (by decide))
      have hrest := beforeQuery_append hnet (tail.dropWhile fun c => !Url.endsAuthority c)
      rw [List.takeWhile_append_dropWhile] at hrest
      have hbase : beforeQuery (tidy url) =
          Text.before ':' (tidy url) ++ ':' :: '/' :: '/' :: beforeQuery tail := by
        have happ := beforeQuery_append hpre tail
        rw [List.append_assoc] at happ
        have htext' : Text.before ':' (tidy url) ++ ("://".toList ++ tail) = tidy url := htext.symm
        rw [htext'] at happ
        rw [happ, List.append_assoc]
        rfl
      rw [hbase, lowerScheme_append (Text.notMem_before _ _), hrest, ← hlower]
      simp [Url.tailParts, beforeQuery]
    · cases h
      exact absurd rfl hnetloc

/-! ## What is kept of a match -/

/-- What a match reports in a field, as text. -/
def reported (value : Json) : Text := if value = .null then [] else value.toStr.toList

/-- The URL of a match without query and fragment, as reported. -/
def reportedBase (m : Item) : Text := beforeQuery (reported (m.get "data"))

/-- The base of the URL that is kept. -/
def keptBase (m : Item) : Text :=
  lowerScheme (beforeQuery (tidy (Text.strip (plain (m.get "data") 2000))))

/-- An http(s) URL is kept, and nothing else. -/
def IsKept (m : Item) : Prop := httpUrl (m.get "data") ≠ []

/-- The tier of a match. -/
def tierOf (m : Item) : Text := dalfoxTier (Unicode.upper (Text.strip (Parsers.textOr (m.get "type") "")))

/-- The injection type and the parameter as one text, cut off. -/
def labelOf (m : Item) : Text :=
  dalfoxTemplate (plain (m.get "inject_type") 100) (plain (m.get "param") 200)

/-- Neither URL is kept, or both are and have the same base. -/
def SameSite (m n : Item) : Prop :=
  (¬IsKept m ∧ ¬IsKept n) ∨ IsKept m ∧ IsKept n ∧ keptBase m = keptBase n

/-- The same injection type and the same parameter. -/
def SameNames (m n : Item) : Prop :=
  reported (m.get "inject_type") = reported (n.get "inject_type") ∧
    reported (m.get "param") = reported (n.get "param")

/-- One match: the same URL without query and fragment, injection type, parameter and tier. -/
def SameMatch (m n : Item) : Prop :=
  reportedBase m = reportedBase n ∧ SameNames m n ∧ tierOf m = tierOf n

/-- A kept URL splits into scheme, host and the rest, and has a base. -/
theorem baseOf_httpUrl {m : Item} (h : IsKept m) :
    baseOf (httpUrl (m.get "data")) = keptBase m ∧ keptBase m ≠ [] := by
  unfold IsKept at h
  unfold httpUrl at h ⊢
  dsimp only at h ⊢
  cases hsplit : Url.urlsplit (Text.strip (plain (m.get "data") 2000)) with
  | error e => rw [hsplit] at h; exact absurd rfl h
  | ok parts =>
    rw [hsplit] at h
    dsimp only at h ⊢
    split at h
    · rename_i hweb
      simp only [Bool.and_eq_true, Bool.or_eq_true, beq_iff_eq] at hweb
      rw [if_pos (by simpa using hweb)]
      have hscheme : parts.scheme ≠ [] := by
        rcases hweb.1 with h | h <;> rw [h] <;> decide
      have hnetloc : parts.netloc ≠ [] := by
        intro hnil
        have hhost : parts.hostname = none := by
          unfold SplitUrl.hostname
          rw [hnil]
          rfl
        simp [hhost] at hweb
      have hbase : _ = keptBase m := urlsplit_base hsplit hscheme hnetloc
      unfold baseOf
      rw [hsplit, if_neg (by simpa using h)]
      exact ⟨hbase, by simp [← hbase, hscheme]⟩
    · exact absurd rfl h

/-- The kept URLs of two matches have the same base exactly when they are the same site. -/
theorem baseOf_httpUrl_inj {m n : Item} :
    baseOf (httpUrl (m.get "data")) = baseOf (httpUrl (n.get "data")) ↔ SameSite m n := by
  have hnil : ∀ m : Item, ¬IsKept m → baseOf (httpUrl (m.get "data")) = [] := by
    intro m h
    rw [IsKept, not_not] at h
    rw [h]
    rfl
  by_cases hm : IsKept m <;> by_cases hn : IsKept n
  · simp [SameSite, hm, hn, baseOf_httpUrl]
  · simp [SameSite, hm, hn, baseOf_httpUrl, hnil]
  · simp [SameSite, hm, hn, (baseOf_httpUrl hn).1, hnil, (baseOf_httpUrl hn).2.symm]
  · simp [SameSite, hm, hn, hnil]

variable [Sanitizer]

/-- The key of a match. -/
theorem dalfoxKey_parseDalfoxItem (programId : String) (m : Item) :
    dalfoxKey (parseDalfoxItem programId m) =
      (baseOf (httpUrl (m.get "data")), labelOf m, tierOf m) := by
  simp only [dalfoxKey, parseDalfoxItem, labelOf, tierOf]

/-- Two matches with the same names and tier whose URLs are the same and kept differently, or
the other way around. -/
def UrlsConfused (m n : Item) : Prop :=
  tierOf m = tierOf n ∧ SameNames m n ∧ ¬(SameSite m n ↔ reportedBase m = reportedBase n)

/-- Two matches of one site and tier whose different names are written into the same text. -/
def NamesConfused (m n : Item) : Prop :=
  tierOf m = tierOf n ∧ SameSite m n ∧ ¬SameNames m n ∧ labelOf m = labelOf n

omit [Sanitizer] in
theorem SameNames.labelOf_eq {m n : Item} (h : SameNames m n) : labelOf m = labelOf n := by
  have hplain : ∀ limit (a b : Json), reported a = reported b → plain a limit = plain b limit := by
    intro limit a b hab
    unfold plain
    exact congrArg (fun l : Text => (l.filter fun c => !isControl c).take limit) hab
  unfold labelOf
  rw [hplain _ _ _ h.1, hplain _ _ _ h.2]

end VardrMap.Imports
