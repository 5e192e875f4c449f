import VardrMap.Policy.RuleOrder

/-!
# Spellings of a host

A target is reduced to its host before it is compared; the value of a domain rule is only
trimmed, folded and freed of trailing dots. So a rule covers the targets on the host that
its value names exactly when the value is written as that host, without a scheme, userinfo,
brackets, a port or a path, and an address letter for letter as the target writes it.
-/
namespace VardrMap.Policy
open Lib

variable [Unicode]

/-! ## Trailing dots and letter case -/

/-- Folding a text and dropping its trailing dots may be done in either order. -/
theorem rdropWhile_dot_lower (l : Text) :
    (Unicode.lower l).rdropWhile (· == '.') = Unicode.lower (l.rdropWhile (· == '.')) := by
  induction l using List.reverseRecOn with
  | nil => simp
  | append_singleton l c ih =>
    by_cases hc : c = '.'
    · subst hc
      rw [Unicode.lower_concat_mark _ _ (by decide), List.rdropWhile_concat_pos _ _ _ (by decide),
        List.rdropWhile_concat_pos _ _ _ (by decide), ih]
    · rw [List.rdropWhile_concat_neg _ _ _ (by simpa using hc)]
      have hlast : (Unicode.lower (l ++ [c])).getLast? ≠ some '.' := by
        intro h
        have := Unicode.lower_last_mark _ _ (by decide) h
        simp at this
        exact hc this
      cases hl : Unicode.lower (l ++ [c]) using List.reverseRecOn with
      | nil => rfl
      | append_singleton m d =>
        rw [List.rdropWhile_concat_neg]
        rw [hl] at hlast
        simpa using hlast

/-- The host pattern of a rule is its trimmed value, folded and without trailing dots. -/
theorem hostPattern_text (rule : ScopeRule) : hostPattern rule.text =
    Unicode.lower ((Text.strip rule.value).rdropWhile (· == '.')) := by
  rw [hostPattern, ScopeRule.text, Text.strip_lower_strip, rdropWhile_dot_lower,
    Unicode.lower_lower]

/-- Marks other than the dot are counted alike before and after. -/
theorem count_lower_rdropWhile_dot (l : Text) {c : Char} (hc : isMark c = true) (hdot : c ≠ '.') :
    (Unicode.lower (l.rdropWhile (· == '.'))).count c = l.count c := by
  rw [Unicode.lower_count_mark _ _ hc]
  induction l using List.reverseRecOn with
  | nil => simp
  | append_singleton l d ih =>
    by_cases hd : d = '.'
    · subst hd
      rw [List.rdropWhile_concat_pos _ _ _ (by decide), ih]
      simp [List.count_append, hdot.symm]
    · rw [List.rdropWhile_concat_neg _ _ _ (by simpa using hd)]

/-! ## Host patterns -/

/-- A matching host holds every mark of the pattern, the wildcard and the dots apart. -/
theorem count_le_of_matches {ruleValue host : Text} {c : Char}
    (h : hostMatches ruleValue host = true ∨ excludesHost ruleValue host = true)
    (hstar : c ≠ '*') (hdot : c ≠ '.') : (hostPattern ruleValue).count c ≤ host.count c := by
  have hsuffix : ∀ {l : Text}, ('.' :: l).isSuffixOf host = true → l.count c ≤ host.count c := by
    intro l hl
    have := (List.isSuffixOf_iff_suffix.mp hl).sublist.count_le c
    rwa [List.count_cons_of_ne hdot.symm] at this
  have hexcludes : excludesHost ruleValue host = true := h.elim excludesHost_of_hostMatches id
  unfold excludesHost at hexcludes
  split at hexcludes
  · simp at hexcludes
  · rename_i apex hp
    rw [hp, List.count_cons_of_ne hstar.symm, List.count_cons_of_ne hdot.symm]
    exact hsuffix hexcludes
  · rename_i suffix _ hp
    rw [hp, List.count_cons_of_ne hstar.symm]
    simp only [Bool.or_eq_true, beq_iff_eq] at hexcludes
    rcases hexcludes with rfl | hexcludes
    · exact le_rfl
    · exact hsuffix hexcludes
  · simp only [Bool.or_eq_true, beq_iff_eq] at hexcludes
    rcases hexcludes with hexcludes | hexcludes
    · rw [hexcludes]
    · exact hsuffix hexcludes

/-- A host that is written like the pattern matches it, unless it starts with a wildcard that
no dot follows. -/
theorem matches_own_iff {ruleValue host : Text} (hne : host ≠ [])
    (hp : hostPattern ruleValue = host) :
    (hostMatches ruleValue host = true ↔ (host.head? = some '*' → host.tail.head? = some '.')) ∧
      (excludesHost ruleValue host = true ↔
        (host.head? = some '*' → host.tail.head? = some '.')) := by
  have hlonger : ∀ suffix : Text, (('*' :: suffix : Text) == suffix) = false ∧
      ('.' :: suffix).isSuffixOf ('*' :: suffix) = false := by
    intro suffix
    constructor
    · simp
    · rw [Bool.eq_false_iff]
      intro h
      have := List.IsSuffix.eq_of_length (List.isSuffixOf_iff_suffix.mp h) (by simp)
      simp at this
  unfold hostMatches excludesHost
  rw [hp]
  obtain ⟨c, l, rfl⟩ := List.exists_cons_of_ne_nil hne
  by_cases hc : c = '*'
  swap
  · simp [hc]
  subst hc
  cases l with
  | nil => simp [(hlonger []).2]
  | cons d suffix =>
    by_cases hd : d = '.'
    · subst hd
      have : ('.' :: suffix).isSuffixOf ('*' :: '.' :: suffix) = true :=
        List.isSuffixOf_iff_suffix.mpr (List.suffix_cons _ _)
      simp [this]
    · obtain ⟨hself, hsuffix⟩ := hlonger (d :: suffix)
      simp [hself, hsuffix, hd]

/-! ## Values that are written as a host -/

/-- The value is a host and nothing else: no path, scheme or userinfo, no port, no
brackets. -/
structure WrittenAsHost (value : Text) : Prop where
  noSlash : '/' ∉ Text.strip value
  noUserinfo : '@' ∉ Text.strip value
  noPort : (Text.strip value).count ':' ≠ 1
  noBracket : (Text.strip value).head? ≠ some '['

omit [Unicode] in
theorem hostText_of_plain_host {l : Text} (hport : l.count ':' ≠ 1) (hbracket : l.head? ≠ some '[') :
    hostText l = some l := by
  unfold hostText
  split
  · simp at hbracket
  · simp [hport]

omit [Unicode] in
theorem afterScheme_of_noSlash {l : Text} (h : '/' ∉ l) : afterScheme l = l := by
  unfold afterScheme
  split
  · rename_i a rest hcut
    exact absurd (by rw [Text.eq_append_of_cut hcut]; simp [schemeSep]) h
  · rfl

omit [Unicode] in
/-- Without slash and userinfo there is nothing to cut off before the host. -/
theorem hostPort_afterScheme {l : Text} (hslash : '/' ∉ l) (hat : '@' ∉ l) :
    hostPort (afterScheme l) = l := by
  rw [afterScheme_of_noSlash hslash, hostPort, Text.before_of_notMem hslash]
  simp [hat]

/-- What a classified target was cut down to. -/
theorem normalizeTarget_eq_some {value host : Text} {kind : TargetKind}
    (h : normalizeTarget value = some (kind, host)) :
    ∃ text, hostText (hostPort (afterScheme (Text.strip value))) = some text ∧
      host = Unicode.lower (text.rdropWhile (· == '.')) ∧ host ≠ [] := by
  simp only [normalizeTarget] at h
  split at h
  swap
  · simp at h
  rename_i text htext
  refine ⟨text, htext, ?_⟩
  unfold classify at h
  split at h
  · simp at h
  rename_i hne
  have hne : Unicode.lower (text.rdropWhile (· == '.')) ≠ [] := by simpa using hne
  split at h
  · obtain ⟨-, rfl⟩ := Prod.mk.inj (Option.some.inj h)
    exact ⟨rfl, hne⟩
  split at h
  · simp at h
  · obtain ⟨-, rfl⟩ := Prod.mk.inj (Option.some.inj h)
    exact ⟨rfl, hne⟩

theorem WrittenAsHost.hostPattern_eq {rule : ScopeRule} {host : Text} {kind : TargetKind}
    (h : WrittenAsHost rule.value) (hn : normalizeTarget rule.value = some (kind, host)) :
    hostPattern rule.text = host := by
  obtain ⟨text, htext, hhost, -⟩ := normalizeTarget_eq_some hn
  rw [hostPort_afterScheme h.noSlash h.noUserinfo,
    hostText_of_plain_host h.noPort h.noBracket] at htext
  obtain rfl := Option.some.inj htext
  rw [hostPattern_text, hhost]

omit [Unicode] in
theorem hostText_sublist {l text : Text} (h : hostText l = some text) : text.Sublist l := by
  unfold hostText at h
  split at h
  · rename_i rest
    split at h
    · obtain rfl := Option.some.inj h
      exact (List.takeWhile_sublist _).cons _
    · simp at h
  · split at h
    · obtain rfl := Option.some.inj h
      exact List.takeWhile_sublist _
    · obtain rfl := Option.some.inj h
      exact List.Sublist.refl _

omit [Unicode] in
theorem notMem_hostPort (l : Text) : '/' ∉ hostPort l := by
  have hbefore := Text.notMem_before '/' l
  unfold hostPort
  dsimp only
  split
  · intro h
    exact hbefore (((List.tail_sublist _).trans (List.dropWhile_sublist _)).subset h)
  · exact hbefore

omit [Unicode] in
/-- A mark that is written around the host, and is not part of it. -/
theorem exists_count_lt {l text : Text} (h : hostText (hostPort (afterScheme l)) = some text)
    (hl : '/' ∈ l ∨ '@' ∈ l ∨ l.count ':' = 1 ∨ l.head? = some '[') :
    ∃ c, isMark c = true ∧ c ≠ '*' ∧ c ≠ '.' ∧ text.count c < l.count c := by
  by_cases hslash : '/' ∈ l
  · refine ⟨'/', by decide, by decide, by decide, ?_⟩
    have hnone : '/' ∉ text := fun hm => notMem_hostPort _ ((hostText_sublist h).subset hm)
    rw [List.count_eq_zero.mpr hnone]
    exact List.count_pos_iff.mpr hslash
  rw [afterScheme_of_noSlash hslash] at h
  by_cases hat : '@' ∈ l
  · refine ⟨'@', by decide, by decide, by decide, ?_⟩
    have hport : hostPort l = Text.after '@' l := by
      rw [hostPort, Text.before_of_notMem hslash]
      simp [hat]
    rw [hport] at h
    have hle := (hostText_sublist h).count_le '@'
    have hsplit := congrArg (List.count '@') (Text.before_append_after hat)
    rw [List.count_append, List.count_cons_self] at hsplit
    omega
  have hport : hostPort l = l := by
    rw [← afterScheme_of_noSlash hslash, hostPort_afterScheme hslash hat,
      afterScheme_of_noSlash hslash]
  rw [hport] at h
  cases l with
  | nil => simp at hl
  | cons c rest =>
    by_cases hbracket : c = '['
    · subst hbracket
      refine ⟨']', by decide, by decide, by decide, ?_⟩
      simp only [hostText] at h
      split at h
      swap
      · simp at h
      rename_i hmem
      obtain rfl := Option.some.inj h
      rw [List.count_eq_zero.mpr (Text.notMem_before _ _), List.count_pos_iff]
      exact List.mem_cons_of_mem _ (by simpa using hmem)
    · have hcolon : (c :: rest).count ':' = 1 := by simpa [hslash, hat, hbracket] using hl
      refine ⟨':', by decide, by decide, by decide, ?_⟩
      have htext : text = Text.before ':' (c :: rest) := by
        simpa [hostText, hbracket, hcolon] using h.symm
      rw [htext, List.count_eq_zero.mpr (Text.notMem_before _ _), hcolon]
      exact Nat.one_pos

/-- A rule that matches the host of its own value is written as that host. -/
theorem writtenAsHost_of_matches {rule : ScopeRule} {host : Text} {kind : TargetKind}
    (hn : normalizeTarget rule.value = some (kind, host))
    (h : hostMatches rule.text host = true ∨ excludesHost rule.text host = true) :
    WrittenAsHost rule.value := by
  obtain ⟨text, htext, hhost, -⟩ := normalizeTarget_eq_some hn
  have hnone : ¬ ('/' ∈ Text.strip rule.value ∨ '@' ∈ Text.strip rule.value ∨
      (Text.strip rule.value).count ':' = 1 ∨ (Text.strip rule.value).head? = some '[') := by
    intro hl
    obtain ⟨c, hmark, hstar, hdot, hlt⟩ := exists_count_lt htext hl
    have hle := count_le_of_matches h hstar hdot
    rw [hostPattern_text, hhost, count_lower_rdropWhile_dot _ hmark hdot,
      count_lower_rdropWhile_dot _ hmark hdot] at hle
    omega
  simp only [not_or] at hnone
  exact ⟨hnone.1, hnone.2.1, hnone.2.2.1, hnone.2.2.2⟩


/-! ## The rule covers its own host -/

/-- The two readings name one host: the same name, or two texts of one address. -/
inductive SameHost : Option (TargetKind × Text) → Option (TargetKind × Text) → Prop
  | name (host : Text) : SameHost (some (.domain, host)) (some (.domain, host))
  | address {text text' : Text} {addr : IpAddr} (h : Ip.address text = some addr)
      (h' : Ip.address text' = some addr) : SameHost (some (.ip, text)) (some (.ip, text'))

/-- A domain rule covers every spelling of the host that its value names. -/
def CoversSpellings (rule : ScopeRule) : Prop :=
  ∀ target, SameHost (normalizeTarget rule.value) (normalizeTarget target) → Covers target rule

/-- The value is written as the host that the target is reduced to: a name without anything
around it and without an undotted wildcard, an address with the target's letters. -/
def Spells (value target : Text) : Prop :=
  match normalizeTarget target with
  | some (.domain, host) =>
    WrittenAsHost value ∧ (host.head? = some '*' → host.tail.head? = some '.')
  | some (.ip, text) => Unicode.lower (Text.strip value) = text
  | none => False

/-- What a domain rule compares with a classified target. -/
theorem ruleMatches_domain {rule : ScopeRule} (hkind : rule.kind = "domain") (host target : Text) :
    ruleMatches rule .domain host target = .ok true ↔ rule.text ≠ [] ∧
      (if rule.excluded then excludesHost rule.text host else hostMatches rule.text host) = true := by
  unfold ruleMatches
  by_cases hblank : rule.text = []
  · simp [hblank]
  · by_cases hexcluded : rule.excluded = true <;> simp [hblank, hkind, hexcluded]

theorem ruleMatches_ip {rule : ScopeRule} (hkind : rule.kind = "domain") (text target : Text) :
    ruleMatches rule .ip text target = .ok true ↔ rule.text ≠ [] ∧ rule.text = text := by
  unfold ruleMatches
  by_cases hblank : rule.text = []
  · simp [hblank]
  · simp [hblank, hkind]

/-- A domain rule covers a target on the host that its value names exactly when the value is
written as that host. -/
theorem covers_iff_spells {rule : ScopeRule} {target : Text} (hkind : rule.kind = "domain")
    (hsame : SameHost (normalizeTarget rule.value) (normalizeTarget target)) :
    Covers target rule ↔ Spells rule.value target := by
  have hcovers : ∀ {kind host}, normalizeTarget target = some (kind, host) →
      (Covers target rule ↔ ruleMatches rule kind host target = .ok true) := by
    intro kind host hn
    constructor
    · rintro ⟨k, v, hkv, hm⟩
      obtain ⟨rfl, rfl⟩ := Prod.mk.inj (Option.some.inj (hn.symm.trans hkv))
      exact hm
    · exact fun hm => ⟨kind, host, hn, hm⟩
  unfold Spells
  cases hr : normalizeTarget rule.value with
  | none =>
    rw [hr] at hsame
    cases hsame
  | some p =>
  cases ht : normalizeTarget target with
  | none =>
    rw [hr, ht] at hsame
    cases hsame
  | some q =>
  rw [hr, ht] at hsame
  cases hsame with
  | name host =>
    obtain ⟨text, -, -, hne⟩ := normalizeTarget_eq_some hr
    rw [hcovers ht, ruleMatches_domain hkind]
    dsimp only
    constructor
    · rintro ⟨-, hm⟩
      have hmatches : hostMatches rule.text host = true ∨ excludesHost rule.text host = true := by
        split at hm
        · exact .inr hm
        · exact .inl hm
      have hwritten := writtenAsHost_of_matches hr hmatches
      obtain ⟨hincludes, hexcludes⟩ := matches_own_iff hne (hwritten.hostPattern_eq hr)
      exact ⟨hwritten, hmatches.elim hincludes.mp hexcludes.mp⟩
    · rintro ⟨hwritten, hstar⟩
      have hpattern := hwritten.hostPattern_eq hr
      obtain ⟨hincludes, hexcludes⟩ := matches_own_iff hne hpattern
      refine ⟨?_, ?_⟩
      · intro hblank
        rw [hblank] at hpattern
        exact hne (by rw [← hpattern]; simp [hostPattern, Text.strip])
      · split
        · exact hexcludes.mpr hstar
        · exact hincludes.mpr hstar
  | @address text text' addr h h' =>
    obtain ⟨_, -, -, hne⟩ := normalizeTarget_eq_some ht
    rw [hcovers ht, ruleMatches_ip hkind]
    dsimp only
    constructor
    · exact fun hm => hm.2
    · intro htext
      have htext : rule.text = text' := htext
      exact ⟨by rw [htext]; exact hne, htext⟩

/-- A rule in capitals with a trailing dot, and a target with scheme, port and path. -/
def portalRule : ScopeRule := ⟨"API.Acme.com.".toList, "domain", true⟩

def portalTarget : Text := "https://api.acme.com:8443/v1/users".toList

omit [Unicode] in
theorem covers_iff_spells_portal : @Covers Unicode.ascii portalTarget portalRule := by
  let _ := Unicode.ascii
  have hr : normalizeTarget portalRule.value = some (.domain, "api.acme.com".toList) := by decide
  have ht : normalizeTarget portalTarget = some (.domain, "api.acme.com".toList) := by decide
  refine (covers_iff_spells rfl (by rw [hr, ht]; exact .name _)).mpr ?_
  rw [Spells, ht]
  exact ⟨⟨by decide, by decide, by decide, by decide⟩, by decide⟩

omit [Unicode] in
/-- A domain rule whose value is a URL does not cover the host that the URL names. -/
theorem not_coversSpellings : ¬ ∀ rule : ScopeRule, rule.kind = "domain" →
    @CoversSpellings Unicode.ascii rule := by
  let _ := Unicode.ascii
  intro hall
  let rule : ScopeRule := ⟨portalTarget, "domain", true⟩
  have hr : normalizeTarget rule.value = some (.domain, "api.acme.com".toList) := by decide
  have ht : normalizeTarget "api.acme.com".toList = some (.domain, "api.acme.com".toList) := by
    decide
  obtain ⟨kind, value, hn, hm⟩ := hall rule rfl "api.acme.com".toList (by rw [hr, ht]; exact .name _)
  obtain ⟨rfl, rfl⟩ := Prod.mk.inj (Option.some.inj (ht.symm.trans hn))
  revert hm
  decide

end VardrMap.Policy
