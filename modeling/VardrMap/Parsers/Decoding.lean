import VardrMap.Deliverables.Lines
import VardrMap.Lib.JsonText.RoundTrip
import VardrMap.Lib.Utf8

/-!
# Decoding an upload

A tool's output is one JSON document or one document a line. The decoder takes a text with a
line feed for lines first, and for one document when a line is none. A document is never
taken for lines (`parse_document`): its first line is no document, since the text goes on
after it. `decode_faithful` says which objects come out.
-/
namespace VardrMap.Parsers
open Lib Deliverables

/-! ## The source -/

/-- A dictionary of the decoder. -/
abbrev Fields := List (Points × Doc)

/-- `d[key] = value`. -/
def setKey (d : Fields) (item : Points × Doc) : Fields :=
  if d.any fun p => p.1 == item.1 then d.map fun p => if p.1 == item.1 then item else p
  else d ++ [item]

/-- `dict(items)`: the last value of a key counts. -/
def dict (items : Fields) : Fields := items.foldl setKey []

variable [Unicode]

-- `repr(float(text))`, unless it is infinite, and the `msg` of the decoder's error.
variable (readFloat : Text → Option Text) (message : Text → String)

/-- `json.loads`. -/
def loads (text : Text) : Except Fault Doc := Doc.loads (.standard readFloat dict) text

/-- The lines that are not blank, without the blanks around them. -/
def contentLines (text : Text) : List Text :=
  ((splitlines text).filter fun line => !(Text.strip line).isEmpty).map Text.strip

/-- The text as one document. -/
def parseWhole (text : Text) : Except Refusal Doc :=
  match loads readFloat text with
  | .ok value => .ok value
  | .error .malformed => .error (.http 400 ("Invalid JSON/JSONL: " ++ message text))
  | .error _ => .error (.raised .valueError)

/-- `parse_json_or_jsonl`. -/
def parseJsonOrJsonl (raw : List UInt8) : Except Refusal Doc :=
  let text := Text.strip (Utf8.decodeReplace raw)
  if text.isEmpty then .error (.http 400 "Uploaded file is empty")
  else if text.contains '\n' then
    if (contentLines text).isEmpty then .error (.http 400 "Uploaded file is empty")
    else
      match (contentLines text).mapM (loads readFloat) with
      | .ok values => .ok (.arr values)
      | .error .malformed => parseWhole readFloat message text
      | .error _ => .error (.raised .valueError)
  else parseWhole readFloat message text

/-- The dictionary that a document is. -/
def object? : Doc → Option Fields
  | .obj fields => some fields
  | _ => none

/-- `_RESULT_KEYS`. -/
def resultKeys : List Points := ["results", "findings"].map fun key => key.toList.map Char.toNat

/-- The list under the first of the keys that holds one. -/
def wrapped? (parsed : Fields) : Option (List Doc) :=
  resultKeys.findSome? fun key =>
    match parsed.lookup key with
    | some (.arr xs) => some xs
    | _ => none

/-- `normalize_to_list`. -/
def normalizeToList (parsed : Doc) : Except Refusal (List Fields) :=
  match parsed with
  | .arr xs => .ok (xs.filterMap object?)
  | .obj fields =>
    match wrapped? fields with
    | some xs => .ok (xs.filterMap object?)
    | none => .ok [fields]
  | _ => .error (.http 400 "Unsupported JSON structure")

/-- The objects of an upload. -/
def decode (raw : List UInt8) : Except Refusal (List Fields) :=
  parseJsonOrJsonl readFloat message raw >>= normalizeToList

/-! ## Trimming -/

/-- A text of white space only. -/
def Spaces (l : Text) : Prop := ∀ c ∈ l, Unicode.isSpace c = true

/-- A text that neither starts nor ends with white space. -/
structure Trimmed (l : Text) : Prop where
  head : ∀ c ∈ l.head?, Unicode.isSpace c = false
  last : ∀ c ∈ l.getLast?, Unicode.isSpace c = false

theorem trimmed_strip (l : Text) : Trimmed (Text.strip l) :=
  ⟨fun _ hc => Text.head?_strip hc, fun _ hc => Text.getLast?_strip hc⟩

/-- What `strip` takes off. -/
theorem exists_strip (l : Text) : ∃ a b, l = a ++ Text.strip l ++ b ∧ Spaces a ∧ Spaces b := by
  refine ⟨l.takeWhile Unicode.isSpace,
    (l.dropWhile Unicode.isSpace).rtakeWhile Unicode.isSpace, ?_,
    fun c hc => List.mem_takeWhile_imp hc, fun c hc => List.mem_rtakeWhile_imp hc⟩
  rw [List.append_assoc, Text.strip, List.rdropWhile_append_rtakeWhile,
    List.takeWhile_append_dropWhile]

theorem Trimmed.strip_eq {l : Text} (h : Trimmed l) : Text.strip l = l :=
  Text.strip_eq_self h.head h.last

/-- White space around a trimmed text is what `strip` takes off. -/
theorem strip_append {a s b : Text} (ha : Spaces a) (hs : Trimmed s) (hne : s ≠ [])
    (hb : Spaces b) : Text.strip (a ++ s ++ b) = s := by
  have hfront : (a ++ s ++ b).dropWhile Unicode.isSpace = s ++ b := by
    rw [List.append_assoc, List.dropWhile_append_of_pos ha]
    cases s with
    | nil => exact (hne rfl).elim
    | cons c s => rw [List.cons_append, List.dropWhile_cons, hs.head c rfl, if_neg (by simp)]
  have hself := hs.strip_eq
  have hdrop : s.dropWhile Unicode.isSpace = s := by
    cases s with
    | nil => rfl
    | cons c s => rw [List.dropWhile_cons, hs.head c rfl, if_neg (by simp)]
  rw [Text.strip, hdrop] at hself
  rw [Text.strip, hfront, Text.rdropWhile_append_all hb, hself]

/-! ## One document -/

theorem isSpace_blank {c : Char} (h : Doc.blank c = true) : Unicode.isSpace c = true := by
  simp only [Doc.blank, Bool.or_eq_true, beq_iff_eq] at h
  rcases h with ((rfl | rfl) | rfl) | rfl <;> exact Unicode.isSpace_ascii _ rfl

omit [Unicode] in
theorem isLineBreak_of_isDigit {c : Char} (h : c.isDigit = true) : isLineBreak c = false := by
  rw [Char.isDigit_iff_toNat] at h
  have h0 : '0'.toNat = 48 := rfl
  have h9 : '9'.toNat = 57 := rfl
  simp only [isLineBreak, List.contains_eq_mem, decide_eq_false_iff_not, List.mem_cons,
    List.not_mem_nil, or_false]
  omega

/-- Neither white space nor a line break continues a number. -/
theorem numeric_eq_false {c : Char} (h : Unicode.isSpace c = true ∨ isLineBreak c = true) :
    Doc.numeric c = false := by
  have hne : ∀ d : Char, isAscii d = true → asciiSpace d = false → isLineBreak d = false →
      c ≠ d := by
    rintro d hascii hspace hbreak rfl
    rw [Unicode.isSpace_ascii _ hascii, hspace, hbreak] at h
    simp at h
  have hdigit : c.isDigit = false := by
    by_contra hd
    rw [Bool.not_eq_false] at hd
    have hspace : asciiSpace c = false := by
      rw [Char.isDigit_iff_toNat] at hd
      have h0 : '0'.toNat = 48 := rfl
      have h9 : '9'.toNat = 57 := rfl
      simp only [asciiSpace, Bool.or_eq_false_iff, Bool.and_eq_false_iff, decide_eq_false_iff_not]
      omega
    exact hne c (isAscii_of_isDigit hd) hspace (isLineBreak_of_isDigit hd) rfl
  simp [Doc.numeric, hdigit, hne '.' rfl rfl rfl, hne 'e' rfl rfl rfl, hne 'E' rfl rfl rfl,
    hne '+' rfl rfl rfl, hne '-' rfl rfl rfl]

omit [Unicode] in
/-- No document starts with a line break. -/
theorem value_lineBreak {R : Doc.Reader} {c : Char} (h : isLineBreak c = true) (fuel : ℕ)
    (t : Text) : ∀ p, Doc.value R fuel (c :: t) ≠ .ok p := by
  have hne : ∀ d : Char, isLineBreak d = false → c ≠ d := by
    rintro d hd rfl
    rw [h] at hd
    cases hd
  have hdigit : c.isDigit = false := by
    by_contra hd
    rw [Bool.not_eq_false] at hd
    rw [isLineBreak_of_isDigit hd] at h
    cases h
  cases fuel with
  | zero => simp [Doc.value]
  | succ fuel =>
    simp [Doc.value, Doc.scanOnce, hne '"' rfl, hne '[' rfl, hne '{' rfl, Doc.scalar, Doc.word?,
      hne 'n' rfl, hne 't' rfl, hne 'f' rfl, hne 'N' rfl, hne 'I' rfl, hne '-' rfl, Doc.number,
      Doc.unsigned, Doc.whole?, hne '0' rfl, hdigit]

omit [Unicode] in
theorem splitlinesFrom_lineBreak {c : Char} (h : isLineBreak c = true) (line rest : Text) :
    ∃ ls, splitlinesFrom line (c :: rest) = line :: ls := by
  by_cases hcr : c = '\r' ∧ ∃ l', rest = '\n' :: l'
  · obtain ⟨rfl, l', rfl⟩ := hcr
    exact ⟨_, rfl⟩
  · exact ⟨_, splitlinesFrom_break h fun l' hc hl => hcr ⟨hc, l', hl⟩⟩

omit [Unicode] in
/-- The first line, when there is a line break. -/
theorem exists_first_line {s : Text} (h : ∃ c ∈ s, isLineBreak c = true) (front : Text) :
    ∃ line c rest ls, s = line ++ c :: rest ∧ isLineBreak c = true ∧
      splitlinesFrom front s = (front ++ line) :: ls := by
  induction s generalizing front with
  | nil =>
    obtain ⟨c, hc, -⟩ := h
    cases hc
  | cons d s ih =>
    cases hd : isLineBreak d with
    | true =>
      obtain ⟨ls, hls⟩ := splitlinesFrom_lineBreak hd front s
      exact ⟨[], d, s, ls, rfl, hd, by rw [hls, List.append_nil]⟩
    | false =>
      obtain ⟨c, hc, hbreak⟩ := h
      have hne : c ≠ d := by
        rintro rfl
        rw [hd] at hbreak
        cases hbreak
      obtain ⟨line, e, rest, ls, rfl, he, hls⟩ :=
        ih ⟨c, List.mem_of_ne_of_mem hne hc, hbreak⟩ (front ++ [d])
      refine ⟨d :: line, e, rest, ls, rfl, he, ?_⟩
      rw [splitlinesFrom_cons hd, hls, List.append_assoc, List.singleton_append]

/-- The first line without its blanks is a beginning of the text. -/
theorem exists_first_content {s : Text} (hs : Trimmed s) (h : ∃ c ∈ s, isLineBreak c = true)
    (hhead : ∀ c ∈ s.head?, isLineBreak c = false) :
    ∃ p q ls, s = p ++ q ∧ p ≠ [] ∧ q ≠ [] ∧ Doc.Stops q ∧ contentLines s = p :: ls := by
  obtain ⟨line, c, rest, ls, rfl, hbreak, hls⟩ := exists_first_line h []
  obtain ⟨d, line, rfl⟩ : ∃ d l, line = d :: l := by
    cases line with
    | nil =>
      have hc := hhead c rfl
      rw [hbreak] at hc
      cases hc
    | cons d l => exact ⟨d, l, rfl⟩
  have hd : Unicode.isSpace d = false := hs.head d rfl
  obtain ⟨a, b, hsplit, ha, hb⟩ := exists_strip (d :: line)
  have hnil : a = [] := by
    cases a with
    | nil => rfl
    | cons e a =>
      have he := ha e List.mem_cons_self
      rw [List.append_assoc, List.cons_append, List.cons.injEq] at hsplit
      rw [← hsplit.1, hd] at he
      cases he
  subst hnil
  rw [List.nil_append] at hsplit
  have hne : Text.strip (d :: line) ≠ [] := by
    intro hempty
    rw [hempty, List.nil_append] at hsplit
    have hmem := hb d (by rw [← hsplit]; exact List.mem_cons_self)
    rw [hd] at hmem
    cases hmem
  have hcontent : ∃ more, contentLines (d :: line ++ c :: rest) = Text.strip (d :: line) :: more :=
    ⟨_, by
      rw [contentLines, splitlines, hls, List.nil_append, List.filter_cons,
        if_pos (by simpa using hne), List.map_cons]⟩
  obtain ⟨more, hcontent⟩ := hcontent
  refine ⟨Text.strip (d :: line), b ++ c :: rest, more, ?_, hne, by simp, ?_, hcontent⟩
  · rw [← List.append_assoc, ← hsplit]
  · intro e he
    cases b with
    | nil =>
      obtain rfl : c = e := Option.some.inj he
      exact numeric_eq_false (.inr hbreak)
    | cons f b =>
      obtain rfl : f = e := Option.some.inj he
      exact numeric_eq_false (.inl (hb f List.mem_cons_self))

/-- A document is never taken for lines: its first line is no document. -/
theorem parseJsonOrJsonl_document {t : Text} {x : Doc} (h : loads readFloat (Text.strip t) = .ok x) :
    parseJsonOrJsonl readFloat message (Utf8.encode t) = .ok x := by
  have hwhole : parseWhole readFloat message (Text.strip t) = .ok x := by rw [parseWhole, h]
  have htrim := trimmed_strip t
  obtain ⟨c, s, hs⟩ : ∃ c s, Text.strip t = c :: s := by
    cases hs : Text.strip t with
    | nil =>
      rw [hs] at h
      cases h
    | cons c s => exact ⟨c, s, rfl⟩
  rw [parseJsonOrJsonl, Utf8.decodeReplace_encode]
  generalize Text.strip t = text at *
  subst hs
  have hspace : Unicode.isSpace c = false := htrim.head c rfl
  have hblank : Doc.blank c = false := by
    by_contra hb
    rw [Bool.not_eq_false] at hb
    rw [isSpace_blank hb] at hspace
    cases hspace
  have hhead : isLineBreak c = false := by
    obtain ⟨fuel, r, hvalue, -⟩ := Doc.loads_eq_ok_iff.mp h
    by_contra hbreak
    rw [Bool.not_eq_false] at hbreak
    rw [Doc.skip, List.dropWhile_cons, hblank, if_neg (by simp)] at hvalue
    exact value_lineBreak hbreak fuel s _ hvalue
  by_cases hlines : '\n' ∈ c :: s
  · obtain ⟨p, q, ls, hpq, hp, hq, hstops, hcontent⟩ := exists_first_content htrim
      ⟨'\n', hlines, rfl⟩ (fun d hd => by
        obtain rfl : c = d := Option.some.inj hd
        exact hhead)
    have hfirst : loads readFloat p = .error .malformed := by
      rw [hpq] at h
      refine Doc.loads_append hstops ?_ ?_ h
      · refine ⟨q.getLast hq, List.getLast_mem hq, ?_⟩
        have hlast := htrim.last (q.getLast hq)
          (by rw [hpq, List.getLast?_append_of_ne_nil _ hq, List.getLast?_eq_getLast_of_ne_nil hq]; rfl)
        by_contra hb
        rw [Bool.not_eq_false] at hb
        rw [isSpace_blank hb] at hlast
        cases hlast
      · obtain ⟨d, p, rfl⟩ := List.exists_cons_of_ne_nil hp
        rw [List.cons_append, List.cons.injEq] at hpq
        exact ⟨d, p, rfl, by rw [← hpq.1]; exact hblank⟩
    have hmap : (p :: ls).mapM (loads readFloat) = .error .malformed := by
      rw [List.mapM_cons, hfirst]
      rfl
    simp only [List.isEmpty_cons, Bool.false_eq_true, if_false, List.contains_eq_mem,
      decide_eq_true_eq, hlines, if_true, hcontent, hmap, hwhole]
  · simp only [List.isEmpty_cons, Bool.false_eq_true, if_false, List.contains_eq_mem,
      decide_eq_true_eq, hlines, hwhole]

/-! ## Lines -/

theorem Trimmed.append {a b c : Text} (ha : Trimmed a) (hc : Trimmed c) (hne : a ≠ [])
    (hne' : c ≠ []) : Trimmed (a ++ b ++ c) := by
  refine ⟨fun x hx => ha.head x ?_, fun x hx => hc.last x ?_⟩
  · obtain ⟨y, a, rfl⟩ := List.exists_cons_of_ne_nil hne
    exact hx
  · rwa [List.getLast?_append_of_ne_nil _ hne'] at hx

/-- The lines of a text that are not blank, without the blanks around them. -/
def content (lines : List Text) : List Text :=
  (lines.filter fun line => !(Text.strip line).isEmpty).map Text.strip

theorem content_cons (line : Text) (lines : List Text) :
    content (line :: lines) = content [line] ++ content lines := by
  rw [content, content, content, ← List.map_append, ← List.filter_append, List.singleton_append]

theorem content_singleton {line : Text} (h : Text.strip line ≠ []) :
    content [line] = [Text.strip line] := by
  rw [content, List.filter_cons, if_pos (by simpa using h)]
  rfl

theorem strip_spaces {l : Text} (h : Spaces l) : Text.strip l = [] := by
  rw [Text.strip, List.dropWhile_eq_nil_iff.mpr h]
  rfl

theorem content_spaces {line : Text} (h : Spaces line) : content [line] = [] := by
  rw [content, List.filter_cons, if_neg (by simp [strip_spaces h])]
  rfl

theorem spaces_nil : Spaces [] := fun c hc => by cases hc

theorem Spaces.tail {c : Char} {l : Text} (h : Spaces (c :: l)) : Spaces l :=
  fun d hd => h d (List.mem_cons_of_mem _ hd)

theorem Spaces.append {a b : Text} (ha : Spaces a) (hb : Spaces b) : Spaces (a ++ b) :=
  List.forall_mem_append.mpr ⟨ha, hb⟩

theorem strip_concat {c : Char} (hc : Unicode.isSpace c = true) (l : Text) :
    Text.strip (l ++ [c]) = Text.strip l := by
  have hspaces : ∀ d ∈ [c], Unicode.isSpace d = true := by simpa using hc
  rw [Text.strip, Text.strip, List.dropWhile_append]
  split_ifs with hempty
  · rw [List.isEmpty_iff] at hempty
    rw [hempty, List.dropWhile_eq_nil_iff.mpr hspaces]
  · exact Text.rdropWhile_append_all hspaces

/-- White space after a line adds no line with content, wherever it breaks. -/
theorem content_splitlinesFrom {b : Text} (hb : Spaces b) (line : Text) :
    content (splitlinesFrom line b) = content [line] := by
  have hblank : content [([] : Text)] = [] := content_spaces spaces_nil
  induction line, b using splitlinesFrom.induct with
  | case1 line hempty =>
    rw [List.isEmpty_iff] at hempty
    rw [hempty, hblank]
    rfl
  | case2 line hne => rw [splitlinesFrom, if_neg hne]
  | case3 line b ih => rw [splitlinesFrom, content_cons, ih hb.tail.tail, hblank, List.append_nil]
  | case4 line c b hcr hbreak ih =>
    rw [splitlinesFrom_break hbreak hcr, content_cons, ih hb.tail, hblank, List.append_nil]
  | case5 line c b hcr hbreak ih =>
    rw [splitlinesFrom_cons (eq_false_of_ne_true hbreak), ih hb.tail]
    simp only [content, List.filter_cons, List.filter_nil, strip_concat (hb c List.mem_cons_self)]
    split_ifs
    · rw [List.map_cons, List.map_cons, strip_concat (hb c List.mem_cons_self)]
    · rfl

/-- Nor does white space before it. -/
theorem content_around {s : Text} (hs : Trimmed s) (hne : s ≠ []) (hsingle : SingleLine s)
    {b : Text} (hb : Spaces b) {a : Text} (ha : Spaces a) {front : Text} (hfront : Spaces front) :
    content (splitlinesFrom front (a ++ (s ++ b))) = [s] := by
  match a with
  | [] =>
    have hstrip := strip_append hfront hs hne spaces_nil
    rw [List.append_nil] at hstrip
    rw [List.nil_append, splitlinesFrom_append hsingle, content_splitlinesFrom hb,
      content_singleton (by rw [hstrip]; exact hne), hstrip]
  | d :: a =>
    have hd : Spaces [d] := by simpa [Spaces] using ha d List.mem_cons_self
    cases hbreak : isLineBreak d with
    | false =>
      rw [List.cons_append, splitlinesFrom_cons hbreak]
      exact content_around hs hne hsingle hb ha.tail (hfront.append hd)
    | true =>
      by_cases hcr : d = '\r' ∧ ∃ a', a = '\n' :: a'
      · obtain ⟨rfl, a', rfl⟩ := hcr
        rw [List.cons_append, List.cons_append, splitlinesFrom, content_cons,
          content_spaces hfront, List.nil_append]
        exact content_around hs hne hsingle hb ha.tail.tail spaces_nil
      · have hcr' : ∀ l', d = '\r' → a ++ (s ++ b) = '\n' :: l' → False := by
          intro l' hd hl
          cases a with
          | nil =>
            obtain ⟨c, s, rfl⟩ := List.exists_cons_of_ne_nil hne
            have hc : c = '\n' := (List.cons.inj hl).1
            have hspace := hs.head c rfl
            rw [hc, Unicode.isSpace_ascii _ rfl] at hspace
            cases hspace
          | cons e a => exact hcr ⟨hd, a, by rw [(List.cons.inj hl).1]⟩
        rw [List.cons_append, splitlinesFrom_break hbreak hcr', content_cons,
          content_spaces hfront, List.nil_append]
        exact content_around hs hne hsingle hb ha.tail spaces_nil
  termination_by a.length

theorem contentLines_append_newline (x rest : Text) :
    contentLines (x ++ '\n' :: rest) = contentLines (x ++ ['\n']) ++ contentLines rest := by
  simp only [contentLines, splitlines, splitlinesFrom_append_newline [] x rest, List.filter_append,
    List.map_append]

omit [Unicode] in
theorem join_cons_cons (t u : Text) (ts : List Text) :
    join ['\n'] (t :: u :: ts) = t ++ '\n' :: join ['\n'] (u :: ts) := by
  simp [join, List.intercalate]

/-- The lines of a text that is put together from lines. White space at the two ends of the
text belongs to its first and its last line; the induction hands the front of it on. -/
theorem contentLines_join {t : Text} {ts : List Text}
    (h : ∀ u ∈ t :: ts, SingleLine (Text.strip u) ∧ Text.strip u ≠ []) :
    ∃ a m b, join ['\n'] (t :: ts) = a ++ m ++ b ∧ Spaces a ∧ Spaces b ∧
      Trimmed m ∧ m ≠ [] ∧ (ts ≠ [] → '\n' ∈ m) ∧
      ∀ front, Spaces front → contentLines (front ++ m) = (t :: ts).map Text.strip := by
  induction ts generalizing t with
  | nil =>
    obtain ⟨hsingle, hne⟩ := h t List.mem_cons_self
    obtain ⟨a, b, hsplit, ha, hb⟩ := exists_strip t
    have htrim := trimmed_strip t
    refine ⟨a, Text.strip t, b, ?_, ha, hb, htrim, hne, fun hts => (hts rfl).elim,
      fun front hfront => ?_⟩
    · rw [← hsplit]
      simp [join]
    · have hlines := content_around htrim hne hsingle spaces_nil hfront spaces_nil
      rw [List.append_nil] at hlines
      exact hlines
  | cons u ts ih =>
    obtain ⟨hsingle, hne⟩ := h t List.mem_cons_self
    obtain ⟨a, b, hsplit, ha, hb⟩ := exists_strip t
    have htrim := trimmed_strip t
    obtain ⟨a', m, b', hjoin, ha', hb', hm, hmne, -, hcontent⟩ :=
      ih fun v hv => h v (List.mem_cons_of_mem _ hv)
    have hmiddle : Trimmed (Text.strip t ++ (b ++ '\n' :: a') ++ m) := htrim.append hm hne hmne
    refine ⟨a, Text.strip t ++ (b ++ '\n' :: a') ++ m, b', ?_, ha, hb', hmiddle,
      by simp, fun _ => by simp, fun front hfront => ?_⟩
    · rw [join_cons_cons, hjoin]
      conv_lhs => rw [hsplit]
      simp
    · have hnewline : Spaces ['\n'] := by
        simpa [Spaces] using isSpace_blank (show Doc.blank '\n' = true from rfl)
      have hlines := content_around htrim hne hsingle (hb.append hnewline) hfront spaces_nil
      have htext : front ++ (Text.strip t ++ (b ++ '\n' :: a') ++ m) =
          (front ++ Text.strip t ++ b) ++ '\n' :: (a' ++ m) := by simp
      have hfirst : contentLines (front ++ Text.strip t ++ b ++ ['\n']) = [Text.strip t] := by
        have hassoc : front ++ Text.strip t ++ b ++ ['\n'] =
            front ++ (Text.strip t ++ (b ++ ['\n'])) := by simp
        rw [hassoc]
        exact hlines
      rw [htext, contentLines_append_newline, hfirst, hcontent a' ha']
      rfl

theorem strip_join {t : Text} {ts : List Text}
    (h : ∀ u ∈ t :: ts, SingleLine (Text.strip u) ∧ Text.strip u ≠ []) (hts : ts ≠ []) :
    Text.strip (join ['\n'] (t :: ts)) ≠ [] ∧ '\n' ∈ Text.strip (join ['\n'] (t :: ts)) ∧
      contentLines (Text.strip (join ['\n'] (t :: ts))) = (t :: ts).map Text.strip := by
  obtain ⟨a, m, b, hjoin, ha, hb, hm, hmne, hnewline, hcontent⟩ := contentLines_join h
  rw [hjoin, strip_append ha hm hmne hb]
  exact ⟨hmne, hnewline hts, hcontent [] spaces_nil⟩

/-- The text has one object on each line. -/
def WritesLines (ts : List Text) (os : List Fields) : Prop :=
  List.Forall₂ (fun t o => loads readFloat (Text.strip t) = .ok (.obj o)) ts os

variable {readFloat} {message}

theorem WritesLines.strip_ne_nil {ts : List Text} {os : List Fields}
    (h : WritesLines readFloat ts os) : ∀ t ∈ ts, Text.strip t ≠ [] := by
  induction h with
  | nil => simp
  | cons ht _ ih =>
    refine List.forall_mem_cons.mpr ⟨fun hempty => ?_, ih⟩
    rw [hempty] at ht
    cases ht

theorem WritesLines.mapM {ts : List Text} {os : List Fields} (h : WritesLines readFloat ts os) :
    (ts.map Text.strip).mapM (loads readFloat) = .ok (os.map .obj) := by
  induction h with
  | nil => rfl
  | cons ht _ ih =>
    rw [List.map_cons, List.mapM_cons, ht, ih]
    rfl

/-- At least two lines with an object each are decoded to the objects. -/
theorem parseJsonOrJsonl_lines {t u : Text} {ts : List Text} {os : List Fields} {file : Text}
    (h : WritesLines readFloat (t :: u :: ts) os)
    (hsingle : ∀ v ∈ t :: u :: ts, SingleLine (Text.strip v))
    (hfile : Text.strip file = Text.strip (join ['\n'] (t :: u :: ts))) :
    parseJsonOrJsonl readFloat message (Utf8.encode file) = .ok (.arr (os.map .obj)) := by
  have hne : ∀ v ∈ t :: u :: ts, SingleLine (Text.strip v) ∧ Text.strip v ≠ [] := by
    intro v hv
    exact ⟨hsingle v hv, h.strip_ne_nil v hv⟩
  obtain ⟨htext, hnewline, hcontent⟩ := strip_join hne (List.cons_ne_nil u ts)
  rw [parseJsonOrJsonl, Utf8.decodeReplace_encode, hfile]
  simp only [hcontent, h.mapM, List.isEmpty_iff, htext, if_false, List.contains_eq_mem,
    decide_eq_true_eq, hnewline, if_true, List.map_eq_nil_iff, List.cons_ne_nil]

/-! ## The objects of an upload -/

omit [Unicode] in
@[simp] theorem filterMap_object? (os : List Fields) : (os.map Doc.obj).filterMap object? = os := by
  rw [List.filterMap_map]
  exact List.filterMap_some

/-- The objects that one object stands for: those of the list it wraps, or itself. -/
def objectsOf (fields : Fields) : List Fields :=
  match wrapped? fields with
  | some xs => xs.filterMap object?
  | none => [fields]

/-- Two objects or more, each within its line, come out as they are; so do the objects of an
array, however it is laid out. A single object comes out as the objects of the list that it
holds under one of the two keys, or else as itself. -/
theorem decode_faithful (readFloat : Text → Option Text) (message : Text → String) :
    (∀ ts os file, 2 ≤ ts.length → WritesLines readFloat ts os →
      (∀ t ∈ ts, SingleLine (Text.strip t)) →
        Text.strip file = Text.strip (join ['\n'] ts) →
          decode readFloat message (Utf8.encode file) = .ok os) ∧
    (∀ file fields, loads readFloat (Text.strip file) = .ok (.obj fields) →
      decode readFloat message (Utf8.encode file) = .ok (objectsOf fields)) ∧
    ∀ file os, loads readFloat (Text.strip file) = .ok (.arr (os.map .obj)) →
      decode readFloat message (Utf8.encode file) = .ok os := by
  refine ⟨fun ts os file hlength hwrites hsingle hfile => ?_, fun file fields h => ?_,
    fun file os h => ?_⟩
  · match ts, hlength with
    | t :: u :: ts, _ =>
      rw [decode, parseJsonOrJsonl_lines hwrites hsingle hfile]
      simp only [bind, Except.bind, normalizeToList, filterMap_object?]
  · rw [decode, parseJsonOrJsonl_document readFloat message h]
    simp only [bind, Except.bind, normalizeToList, objectsOf]
    cases wrapped? fields <;> rfl
  · rw [decode, parseJsonOrJsonl_document readFloat message h]
    simp only [bind, Except.bind, normalizeToList, filterMap_object?]

omit [Unicode] in
theorem setKey_of_notMem {d : Fields} {item : Points × Doc} (h : item.1 ∉ d.map Prod.fst) :
    setKey d item = d ++ [item] := by
  rw [setKey, if_neg]
  intro hany
  obtain ⟨p, hp, heq⟩ := List.any_eq_true.mp hany
  exact h (List.mem_map.mpr ⟨p, hp, eq_of_beq heq⟩)

omit [Unicode] in
/-- Pairs with distinct keys are the dictionary. -/
theorem dict_eq_self {items : Fields} (h : (items.map Prod.fst).Nodup) : dict items = items := by
  induction items using List.reverseRecOn with
  | nil => rfl
  | append_singleton items item ih =>
    rw [List.map_append, List.map_singleton, List.nodup_append] at h
    have hitems : items.foldl setKey [] = items := ih h.1
    rw [dict, List.foldl_concat, hitems, setKey_of_notMem]
    exact fun hmem => h.2.2 _ hmem _ (List.mem_singleton_self _) rfl

/-- The object `{"results":[]}`. -/
def wrapper : Fields := [("results".toList.map Char.toNat, .arr [])]

omit [Unicode] in
theorem wellFormed_wrapper : (Doc.obj wrapper).WellFormed fun _ => False := by
  have hlow : ∀ n ∈ "results".toList.map Char.toNat, n < 55296 := by decide
  refine .obj (List.nodup_singleton _) ?_ ?_
  · rintro p hp
    rw [List.mem_singleton.mp hp]
    exact Points.joined_of_lt_high hlow
  · rintro p hp
    rw [List.mem_singleton.mp hp]
    exact .arr fun x hx => by cases hx

omit [Unicode] in
/-- One object that wraps an empty list is on its line, and no object comes out. -/
theorem decode_wrapped : ¬ ∀ ts os, ts ≠ [] → @WritesLines Unicode.ascii (fun _ => none) ts os →
    @decode Unicode.ascii (fun _ => none) (fun _ => "") (Utf8.encode (join ['\n'] ts)) = .ok os := by
  let _ := Unicode.ascii
  intro h
  have htrim : Trimmed (Doc.obj wrapper).plain := by
    rw [wrapper, Doc.plain]
    exact ⟨fun c hc => by cases hc; rfl, fun c hc => by
      rw [List.getLast?_concat] at hc
      cases hc
      rfl⟩
  have hload : loads (fun _ => none) (Text.strip (Doc.obj wrapper).plain) = .ok (.obj wrapper) := by
    rw [htrim.strip_eq]
    exact Doc.loads_plain (fun fs hfs => congrArg (fun d => some (Doc.obj d)) (dict_eq_self hfs))
      wellFormed_wrapper
  have hline := h [(Doc.obj wrapper).plain] [wrapper] (List.cons_ne_nil _ _) (.cons hload .nil)
  have hjoin : join ['\n'] [(Doc.obj wrapper).plain] = (Doc.obj wrapper).plain := by simp [join]
  rw [hjoin, decode, parseJsonOrJsonl_document _ _ hload] at hline
  have hwrapped : wrapped? wrapper = some [] := by
    rw [wrapped?, resultKeys, List.map_cons, List.findSome?_cons, wrapper, List.lookup_cons_self]
  simp only [bind, Except.bind, normalizeToList, hwrapped] at hline
  cases hline

end VardrMap.Parsers
