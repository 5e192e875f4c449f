import VardrMap.Lib.Base64
import VardrMap.ManagedWire

/-!
# Byte strings on the wire

Keys, payloads and signatures travel as base64 of the URL-safe alphabet without padding.
`b64` writes a byte string and `unb64` reads one of bounded length: `unb64_eq_ok_iff` says
that `b64` is the only spelling it accepts.
-/
namespace VardrMap
namespace Wire
open Lib

/-- The capital letters, the small letters, the digits and two signs. -/
def standardSymbol (i : Fin 64) : Char :=
  if i.val < 26 then Char.ofNat (65 + i.val)
  else if i.val < 52 then Char.ofNat (71 + i.val)
  else if i.val < 62 then Char.ofNat (i.val - 4)
  else if i.val = 62 then '+'
  else '/'

theorem standardSymbol_inj : ∀ i j, standardSymbol i = standardSymbol j → i = j := by
  decide +kernel

/-- The alphabet of `base64.b64encode`. -/
def standard : Base64.Alphabet where
  symbol := standardSymbol
  symbol_injective := fun i j => standardSymbol_inj i j
  symbol_ne_pad := by decide +kernel

/-- `urlsafe_b64encode` replaces the last two symbols. -/
def urlSafe (c : Char) : Char := if c == '+' then '-' else if c == '/' then '_' else c

/-- `b64decode` with `altchars=b"-_"` puts them back. -/
def plain (c : Char) : Char := if c == '-' then '+' else if c == '_' then '/' else c

/-- `b64`. -/
def b64 (data : List UInt8) : Text := ((standard.encode data).map urlSafe).rdropWhile (· == '=')

/-- `[A-Za-z0-9_-]`. -/
def base64Char (c : Char) : Bool := c.isAlphanum || c == '_' || c == '-'

/-- The bound on the length of a text, `(maximum * 4 + 2) // 3`. -/
def fits (value : Text) (maximum : ℤ) : Bool :=
  0 < value.length && (value.length : ℤ) ≤ (maximum * 4 + 2) / 3

/-- The padding that the decoder wants back, `"=" * (-len(value) % 4)`. -/
def filling (value : Text) : Text := List.replicate (-(value.length : ℤ) % 4).toNat '='

/-- `unb64`. -/
def unb64 (value : Json) (maximum : ℤ) : Except Refusal (List UInt8) := do
  let .str s := value | .error (.wire "invalid_base64")
  let text := s.toList
  require (fits text maximum && text.all base64Char) "invalid_base64"
  let some data := standard.decode ((text ++ filling text).map plain)
    | .error (.wire "invalid_base64")
  require (data.length ≤ maximum && b64 data == text) "invalid_base64"
  return data

/-! ## One spelling -/

theorem base64Char_urlSafe : ∀ i, base64Char (urlSafe (standard.symbol i)) = true := by
  decide +kernel

theorem plain_urlSafe : ∀ i, plain (urlSafe (standard.symbol i)) = standard.symbol i := by
  decide +kernel

theorem urlSafe_ne_pad : ∀ i, (urlSafe (standard.symbol i) == '=') = false := by decide +kernel

/-- What `b64` writes: symbols only, their number set by the byte count, and with the padding
put back the text that the encoder wrote. -/
theorem b64_spec (data : List UInt8) : (b64 data).all base64Char = true ∧
    (b64 data).length = (4 * data.length + 2) / 3 ∧
    (b64 data ++ filling (b64 data)).map plain = standard.encode data := by
  obtain ⟨body, hsymbols, hlength, henc⟩ := standard.encode_eq data
  have hb64 : b64 data = body.map urlSafe := by
    rw [b64, henc, List.map_append, List.map_replicate,
      Text.rdropWhile_append_all (by simp [Base64.pad, urlSafe])]
    cases body using List.reverseRecOn with
    | nil => rfl
    | append_singleton cs c =>
      obtain ⟨i, rfl⟩ := hsymbols c (by simp)
      simp only [List.map_append, List.map_cons, List.map_nil]
      exact List.rdropWhile_concat_neg _ _ _ (by simp [urlSafe_ne_pad])
  have hback : (body.map urlSafe).map plain = body := by
    rw [List.map_map]
    refine (List.map_congr_left fun c hc => ?_).trans (List.map_id body)
    obtain ⟨i, rfl⟩ := hsymbols c hc
    exact plain_urlSafe i
  refine ⟨?_, by simp [hb64, hlength], ?_⟩
  · rw [hb64, List.all_eq_true]
    intro c hc
    obtain ⟨d, hd, rfl⟩ := List.mem_map.mp hc
    obtain ⟨i, rfl⟩ := hsymbols d hd
    exact base64Char_urlSafe i
  · have hfill : (-(body.length : ℤ) % 4).toNat = (4 - body.length % 4) % 4 := by omega
    rw [hb64, List.map_append, hback, henc, filling, List.length_map, hfill, List.map_replicate]
    rfl

/-- The bound on the text's length is the bound on the byte count. -/
theorem fits_b64 (data : List UInt8) (maximum : ℤ) :
    fits (b64 data) maximum = true ↔ 1 ≤ data.length ∧ (data.length : ℤ) ≤ maximum := by
  obtain ⟨-, hlength, -⟩ := b64_spec data
  simp only [fits, hlength, Bool.and_eq_true, decide_eq_true_eq]
  omega

/-- A text is read as these bytes exactly when it is their spelling and their number is within
the bound; and the length of the text alone already decides that bound. -/
theorem unb64_eq_ok_iff (s : String) (data : List UInt8) (maximum : ℤ) :
    (unb64 (.str s) maximum = .ok data ↔
      s.toList = b64 data ∧ 1 ≤ data.length ∧ (data.length : ℤ) ≤ maximum) ∧
    (fits (b64 data) maximum = true ↔ 1 ≤ data.length ∧ (data.length : ℤ) ≤ maximum) := by
  refine ⟨?_, fits_b64 data maximum⟩
  obtain ⟨hchars, hlength, hpadded⟩ := b64_spec data
  constructor
  · intro h
    simp only [unb64] at h
    obtain ⟨_, hrequire, h⟩ := bind_eq_ok h
    have hfits := require_eq_ok hrequire
    split at h
    · rename_i data' hdecode
      obtain ⟨_, hcheck, h⟩ := bind_eq_ok h
      have hlast := require_eq_ok hcheck
      obtain rfl := Except.ok.inj h
      simp only [Bool.and_eq_true, decide_eq_true_eq, beq_iff_eq] at hfits hlast
      obtain ⟨hle, htext⟩ := hlast
      rw [← htext] at hfits
      exact ⟨htext.symm, (fits_b64 data' maximum).mp hfits.1⟩
    · simp at h
  · rintro ⟨htext, hbounds⟩
    have hfits := (fits_b64 data maximum).mpr hbounds
    have hdecode : standard.decode ((b64 data ++ filling (b64 data)).map plain) = some data := by
      rw [hpadded]
      exact standard.decode_encode data
    simp only [unb64, htext, hfits, hchars, hdecode, require, ensure, Bool.and_self, if_true,
      hbounds.2, decide_true, beq_self_eq_true]
    rfl

end Wire
end VardrMap
