import VardrMap.Imports

/-!
# Malformed rows

An import promises that a malformed row does not fail it. Rows are read field by field, and
linked by the address they were found at. What raises is a field handed to the sanitiser
that is neither false nor a text, an `input` of ffuf that is no dictionary, a weakness id of
nuclei that is no text, and a port written in digits that have no value.
-/
namespace VardrMap.Imports
open Lib Assets Parsers

/-- Nothing, or a text. -/
def Textual (value : Json) : Prop := value.truthy = true → ∃ s, value = .str s

/-- The address that a row is linked by. -/
def observed (url host : Text) : Text := if url.isEmpty then host else url

section Rows
variable [Unicode]

/-- A row of ffuf that reads and links. -/
def ReadableFfuf (item : Item) : Prop :=
  ((Json.obj item).hasField "input" = true → (item.get "input").isObj = true) ∧
    Textual (contentTypeOf item) ∧
      PortReadable (urlField ((item.get "url").orElse
        (((item.get "input").field "FUZZ").orElse (.str ""))))

/-- A row of httpx that reads and links. -/
def ReadableHttpx (item : Item) : Prop :=
  Textual (item.get "title") ∧ Textual (item.get "webserver") ∧ Textual (contentTypeOf item) ∧
    PortReadable (observed (urlField (item.get "url")) (urlField (item.get "host")))

/-- A row of nuclei that reads and links. -/
def ReadableNuclei (item : Item) : Prop :=
  let info := dictOf (item.get "info")
  Textual ((item.get "template-id").orElse (item.get "templateID")) ∧
    Textual ((info.field "name").orElse (item.get "matcher-name")) ∧
    Textual (info.field "severity") ∧ Textual (item.get "type") ∧
    Textual (info.field "description") ∧
    (∀ ids, (dictOf (info.field "classification")).field "cwe-id" = .arr ids →
      ∀ id ∈ ids, ∃ s, id = .str s) ∧
    PortReadable (urlField ((item.get "matched-at").orElse (item.get "host")))

/-- A row of dalfox that links: it always reads. -/
def ReadableDalfox (item : Item) : Prop := PortReadable (httpUrl (item.get "data"))

/-- A row of katana or gau that links: one without a web URL is left out. -/
def ReadableWeb (raw : Json) : Prop :=
  ∀ url host path, webUrl raw = some (url, host, path) →
    PortReadable (observed (urlField (.str (String.ofList url)))
      (urlField (.str (String.ofList host))))

/-- A row that a tool's importer reads and links. -/
def Readable (tool : ToolType) (item : Item) : Prop :=
  match tool with
  | .ffuf => ReadableFfuf item
  | .httpx => ReadableHttpx item
  | .nuclei => ReadableNuclei item
  | .katana => ReadableWeb ((item.get "url").orElse ((dictOf (item.get "request")).field "endpoint"))
  | .gau => ReadableWeb (item.get "url")
  | .dalfox => ReadableDalfox item

variable [Sanitizer]

/-- The addresses that the parsed rows of a file are linked by. -/
def observedRows (tool : ToolType) (items : List Item) (programId : String) :
    Except Exn (List Text) :=
  match tool with
  | .ffuf => (·.map reconObserved) <$> parseFfuf items programId
  | .httpx => (·.map reconObserved) <$> parseHttpx items programId
  | .nuclei => (·.map scanObserved) <$> parseNuclei items programId
  | .katana => .ok ((parseKatana items programId).map reconObserved)
  | .gau => .ok ((parseGau items programId).map reconObserved)
  | .dalfox => .ok ((parseDalfox items programId).map scanObserved)

/-! ## One row -/

omit [Unicode] [Sanitizer] in
/-- Two steps succeed, with a property, when the second does after the first. -/
theorem exists_bind_iff {ε α β : Type} {x : Except ε α} {f : α → Except ε β} {P : β → Prop} :
    (∃ b, (x >>= f) = .ok b ∧ P b) ↔ ∃ a, x = .ok a ∧ ∃ b, f a = .ok b ∧ P b := by
  cases x <;> simp [bind, Except.bind]

/-- The sanitiser takes nothing but text. -/
theorem stripHtml_isOk_iff {value : Json} : (∃ l, stripHtml value = .ok l) ↔ Textual value := by
  unfold stripHtml Textual
  cases h : value.truthy with
  | false => simp
  | true => cases value <;> simp

omit [Unicode] [Sanitizer] in
theorem Json.orElse_assoc (a b c : Json) : (a.orElse b).orElse c = a.orElse (b.orElse c) := by
  unfold Json.orElse
  cases h : a.truthy <;> simp [h]

omit [Unicode] [Sanitizer] in
/-- A text for the case that there is nothing changes nothing. -/
theorem textual_orElse {value : Json} {s : String} :
    Textual (value.orElse (.str s)) ↔ Textual value := by
  unfold Json.orElse Textual
  cases h : value.truthy <;> simp [h]

omit [Sanitizer] in
/-- A row links, into any graph and under any source, when its port has a value. -/
theorem link_isOk_iff (c : Context) (text : Text) :
    (∀ source assets, (link c source assets text).isOk = true) ↔ PortReadable text := by
  simp only [link, upsert_isOk_iff, parse_isOk_iff, forall_const]

omit [Sanitizer] in
/-- The weakness ids are joined when all of them are texts. -/
theorem cweOf_isOk_iff {classification : Json} : (∃ l, cweOf classification = .ok l) ↔
    ∀ ids, classification.field "cwe-id" = .arr ids → ∀ id ∈ ids, ∃ s, id = .str s := by
  unfold cweOf
  split
  · rename_i ids hids
    have hids' : (∀ ids', classification.field "cwe-id" = .arr ids' →
        ∀ id ∈ ids', ∃ s, id = .str s) ↔ ∀ id ∈ ids, ∃ s, id = .str s := by
      rw [hids]
      exact ⟨fun h => h ids rfl, fun h ids' heq => Json.arr.inj heq ▸ h⟩
    have hid : ∀ id : Json, (∃ l : Text, cweId id = .ok l) ↔ ∃ s, id = .str s := by
      intro id
      cases id <;> simp [cweId]
    have hall := @exists_mapM_iff _ _ _ cweId (fun _ => True) ids
    simp only [and_true, implies_true, hid] at hall
    rw [hids', ← hall]
    change (∃ l, (ids.mapM cweId >>= fun ids => .ok (join [','] ids)) = .ok l) ↔ _
    cases ids.mapM cweId <;> simp [bind, Except.bind]
  · rename_i h
    exact iff_of_true ⟨_, rfl⟩ fun ids hids => absurd hids (h ids)

theorem parseHttpxItem_iff {programId : String} {item : Item} :
    (∃ row, parseHttpxItem programId item = .ok row ∧ PortReadable (reconObserved row)) ↔
      ReadableHttpx item := by
  simp only [parseHttpxItem, exists_bind_iff, pure, Except.pure, Except.ok.injEq,
    exists_eq_left', reconObserved, ReconItem.of, exists_and_right, stripHtml_isOk_iff]
  rfl

theorem parseNucleiItem_iff {programId : String} {item : Item} :
    (∃ row, parseNucleiItem programId item = .ok row ∧ PortReadable (scanObserved row)) ↔
      ReadableNuclei item := by
  simp only [parseNucleiItem, exists_bind_iff, pure, Except.pure, Except.ok.injEq,
    exists_eq_left', scanObserved, exists_and_right, stripHtml_isOk_iff, ← Json.orElse_assoc,
    textual_orElse, cweOf_isOk_iff]
  rfl

/-- What a row of ffuf was found with. -/
def inputOf (item : Item) : Json := (item.lookup "input").getD (.obj [])

omit [Unicode] [Sanitizer] in
theorem isObj_inputOf_iff {item : Item} : (inputOf item).isObj = true ↔
    ((Json.obj item).hasField "input" = true → (item.get "input").isObj = true) := by
  simp only [inputOf, Item.get, Json.hasField, Json.field]
  cases item.lookup "input" with
  | none => simp [Json.isObj]
  | some input => simp

omit [Unicode] [Sanitizer] in
theorem field_inputOf {item : Item} (name : String) :
    (inputOf item).field name = (item.get "input").field name := by
  simp only [inputOf, Item.get, Json.field]
  cases item.lookup "input" <;> rfl

theorem parseFfufItem_iff {programId : String} {item : Item} :
    (∃ row, parseFfufItem programId item = .ok row ∧ PortReadable (reconObserved row)) ↔
      ReadableFfuf item := by
  have hobserved : ∀ l : Text, (if l.isEmpty then ([] : Text) else l) = l := by
    intro l
    cases l <;> rfl
  have hinput : (Json.obj item).getD "input" (.obj []) = .ok (inputOf item) := rfl
  unfold parseFfufItem ReadableFfuf
  rw [← isObj_inputOf_iff, ← field_inputOf, hinput]
  cases hobj : inputOf item with
  | obj fields =>
    have hget : (Json.obj fields).get "FUZZ" = .ok ((Json.obj fields).field "FUZZ") := rfl
    have hgetD : (Json.obj fields).getD "FUZZ" (.str "") =
        .ok ((fields.lookup "FUZZ").getD (.str "")) := rfl
    rw [← Json.orElse_assoc]
    unfold Json.orElse
    cases (item.get "url").truthy <;>
      simp only [Bool.false_eq_true, if_true, if_false, exists_bind_iff, hget, hgetD, pure,
        Except.pure, Except.ok.injEq, exists_eq_left', exists_eq', reconObserved, ReconItem.of,
        exists_and_right, stripHtml_isOk_iff, hobserved, Json.isObj, true_and]
  | _ =>
    cases (item.get "url").truthy <;>
      simp [exists_bind_iff, Json.get, Json.getD, Json.isObj]

/-! ## All rows -/

omit [Unicode] [Sanitizer] in
/-- A property of what the rows of a list are linked by. -/
theorem exists_map_mapM_iff {α : Type} {f : Item → Except Exn α} {g : α → Text}
    {P : Text → Prop} {items : List Item} :
    (∃ texts, (·.map g) <$> items.mapM f = .ok texts ∧ ∀ text ∈ texts, P text) ↔
      ∀ item ∈ items, ∃ row, f item = .ok row ∧ P (g row) := by
  rw [← exists_mapM_iff]
  cases items.mapM f <;> simp [Functor.map, Except.map]

omit [Sanitizer] in
/-- The rows of web URLs link when each URL does. -/
theorem readableWeb_iff {row : Item → Option ReconItem} {raw : Item → Json} {items : List Item}
    (hrow : ∀ item, (row item).map reconObserved = (webUrl (raw item)).map fun (url, host, _) =>
      observed (urlField (.str (String.ofList url))) (urlField (.str (String.ofList host)))) :
    (∀ text ∈ (items.filterMap row).map reconObserved, PortReadable text) ↔
      ∀ item ∈ items, ReadableWeb (raw item) := by
  have hmap : (items.filterMap row).map reconObserved = items.filterMap fun item =>
      (webUrl (raw item)).map fun (url, host, _) =>
        observed (urlField (.str (String.ofList url))) (urlField (.str (String.ofList host))) := by
    rw [List.map_filterMap]
    exact congrArg (items.filterMap ·) (funext hrow)
  rw [hmap]
  simp only [List.mem_filterMap, Option.map_eq_some_iff, Prod.exists, ReadableWeb]
  constructor
  · intro h item hitem url host path hweb
    exact h _ ⟨item, hitem, url, host, path, hweb, rfl⟩
  · rintro h _ ⟨item, hitem, url, host, path, hweb, rfl⟩
    exact h item hitem url host path hweb

/-- Every row of a file reads and links, into any graph, exactly when its fields for the
sanitiser are texts, its input and weakness ids have their types, and its port has a value. -/
theorem rows_never_fail_iff (c : Context) (tool : ToolType) (items : List Item) :
    (∃ texts, observedRows tool items c.programId = .ok texts ∧
        ∀ text ∈ texts, ∀ source assets, (link c source assets text).isOk = true) ↔
      ∀ item ∈ items, Readable tool item := by
  simp only [link_isOk_iff]
  cases tool with
  | ffuf =>
    refine exists_map_mapM_iff.trans ?_
    simp only [parseFfufItem_iff, Readable]
  | httpx =>
    refine exists_map_mapM_iff.trans ?_
    simp only [parseHttpxItem_iff, Readable]
  | nuclei =>
    refine exists_map_mapM_iff.trans ?_
    simp only [parseNucleiItem_iff, Readable]
  | katana =>
    simp only [observedRows, Except.ok.injEq, exists_eq_left', Readable]
    exact readableWeb_iff fun item => by simp [parseKatanaItem, Function.comp_def]; rfl
  | gau =>
    simp only [observedRows, Except.ok.injEq, exists_eq_left', Readable]
    exact readableWeb_iff fun item => by simp [parseGauItem, Function.comp_def]; rfl
  | dalfox =>
    have hobserved : ∀ item, scanObserved (parseDalfoxItem c.programId item) =
        httpUrl (item.get "data") := fun item => by simp only [scanObserved, parseDalfoxItem]
    simp only [observedRows, Except.ok.injEq, exists_eq_left', Readable, ReadableDalfox,
      parseDalfox, List.map_map, List.mem_map, forall_exists_index, and_imp,
      forall_apply_eq_imp_iff₂, Function.comp_apply, hobserved]

end Rows

/-- A title that is a list of texts. -/
theorem not_rows_never_fail : ¬∀ (c : Context) (tool : ToolType) (items : List Item),
    ∃ texts, @observedRows Unicode.ascii ⟨id⟩ tool items c.programId = .ok texts ∧
      ∀ text ∈ texts, ∀ source assets, (@link Unicode.ascii c source assets text).isOk = true := by
  let _ := Unicode.ascii
  let _ : Sanitizer := ⟨id⟩
  intro h
  obtain ⟨texts, htexts, -⟩ := h ⟨"e1", none, 0, fun n => Nat.repr n⟩ .httpx
    [[("title", .arr [.str "Sign in"])]]
  have hraise : observedRows .httpx [[("title", .arr [.str "Sign in"])]] "e1" =
      .error .attributeError := by decide +kernel
  rw [hraise] at htexts
  cases htexts

end VardrMap.Imports
