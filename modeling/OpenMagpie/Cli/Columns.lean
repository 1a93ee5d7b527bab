import OpenMagpie.Lib.Fresh
import OpenMagpie.Lib.Text
import OpenMagpie.Watches.Kinds

/-!
# Columns of a list view

A view is a projection of the JSON records of its rows: a column has a header and the dot-path of the
value it shows. An export streams the records of its pages as CSV below one header row.

* `parseColumns`, `dedupeHeaders`: the columns of a `--columns` text or a view's own, with headers made
  unique.
* `cell`: what a column shows of a record. `csvSafe`: a cell that no spreadsheet takes for a formula.
* `emitColumnsStream`: the rows that an export writes.
* `SafeCsv`: distinct headers, a cell in each row for each column, and no formula.
* **`safeCsv_iff`**: an export is safe exactly when no header that is to be quoted reads, behind an
  apostrophe, like another header. `safeCsv_of_headers`: so it is when no column given has a header
  that begins with an apostrophe.
-/

set_option autoImplicit false

namespace OpenMagpie

open Python

/-! ## Columns -/

/-- `console.EMPTY`. -/
def emptyCell : String := "-"

/-- A column: its header, the dot-path it shows, a width cap and a formatter. -/
structure Col where
  header : String
  path : String
  width : Option ℕ := none
  fmt : Option (Value → String) := none

/-- `typer.BadParameter`. -/
structure BadParameter where
  message : String
  deriving DecidableEq

/-- `str.split` at a character. -/
def splitText (sep : Char) (s : String) : List String := (s.toList.splitOn sep).map String.ofList

section Columns

variable (T : Text)

/-- `_split_token`: the header and the path of a token. -/
def splitToken (token : String) : Except BadParameter (String × String) :=
  let header := token.toList.takeWhile (· ≠ ':')
  match token.toList.dropWhile (· ≠ ':') with
  | [] => .ok (T.upper ((splitText '.' token).getLastD ""), token)
  | _ :: path =>
    if header = [] ∨ path = [] then
      let side := if header = [] then "header" else "path"
      .error ⟨"--columns token " ++ T.repr token ++ ": empty " ++ side ++
        " (expected `path` or `HEADER:path`)."⟩
    else .ok (String.ofList header, String.ofList path)

/-- `col`. -/
def col (token : String) (width : Option ℕ := none) (fmt : Option (Value → String) := none) :
    Except BadParameter Col := do
  let (header, path) ← splitToken T token
  return { header, path, width, fmt }

/-- The tokens of a `--columns` text. -/
def tokens (selected : String) : List String :=
  ((selected.toList.splitOn ',').map strip).filterMap fun t =>
    if t = [] then none else some (String.ofList t)

/-- `_parse_columns`. -/
def parseColumns (selected : Option String) (default : List Col) : Except BadParameter (List Col) :=
  match selected with
  | none => .ok default
  | some selected => do
    let cols ← (tokens selected).mapM (col T ·)
    if cols = [] then
      throw ⟨"--columns is empty (give at least one dot-path, or omit it for the default view)."⟩
    return cols

/-- A header with a number. -/
def numbered (header : String) (n : ℕ) : String := header ++ "_" ++ n.repr

/-- The body of the loop over the columns: the header that a column gets when those in `seen`, case
folded, have been given. -/
def freshHeader (seen : List String) (header : String) : String :=
  if T.casefold header ∈ seen then
    numbered header
      (Fresh.search (fun n => T.casefold (numbered header n)) seen (seen.length + 1) 2)
  else header

/-- The loop of `_dedupe_headers`. -/
def dedupeLoop : List String → List Col → List Col
  | _, [] => []
  | seen, c :: cols =>
    let header := freshHeader T seen c.header
    { c with header } :: dedupeLoop (T.casefold header :: seen) cols

/-- `_dedupe_headers`. -/
def dedupeHeaders (cols : List Col) : List Col := dedupeLoop T [] cols

/-! ## Cells -/

/-- A scalar that a list joins. -/
def isScalar : Value → Bool
  | .str _ | .int _ | .float _ | .bool _ => true
  | .none | .list _ | .dict _ => false

/-- `_render_leaf`. -/
def renderLeaf : Value → String
  | .none => emptyCell
  | .str s => if s = "" then emptyCell else s
  | .list [] => emptyCell
  | .list xs => if xs.all isScalar then String.intercalate ", " (xs.map T.str) else T.dumps (.list xs)
  | .dict [] => emptyCell
  | .dict kvs => T.dumps (.dict kvs)
  | v => T.str v

/-- The walk of `_path_leaf` along the segments of a path. -/
def walkPath : Value → List String → Option Value
  | v, [] => some v
  | .dict kvs, k :: ks => (kvs.lookup k).bind (walkPath · ks)
  | _, _ :: _ => none

/-- `_path_leaf`. -/
def pathLeaf (record : Dict) (path : String) : Option Value :=
  walkPath (.dict record) (splitText '.' path)

/-- `_cell`. -/
def cell (record : Dict) (column : Col) : String :=
  match pathLeaf record column.path with
  | none => emptyCell
  | some leaf => match column.fmt with
    | none => renderLeaf T leaf
    | some fmt => match leaf with
      | .none => renderLeaf T .none
      | leaf => fmt leaf

/-! ## The export -/

/-- The cell begins like a formula. -/
def formulaLed (cell : String) : Bool :=
  match cell.toList with
  | [] => false
  | c :: _ => c ∈ ['=', '+', '-', '@', '\t', '\r']

/-- A number with its sign. -/
def signedNumber (cell : String) : Bool :=
  match cell.toList with
  | [] => false
  | c :: _ => c ∈ ['+', '-'] && T.isFloat isSpace cell

/-- The cell is to be quoted. -/
def quoted (cell : String) : Bool := formulaLed cell && cell ≠ emptyCell && ! signedNumber T cell

/-- `_csv_safe`. -/
def csvSafe (cell : String) : String :=
  if cell = emptyCell then cell
  else if formulaLed cell = false then cell
  else if signedNumber T cell then cell
  else "'" ++ cell

/-- What a stream of pages is written with. -/
structure ColumnsStream (α : Type) where
  recordOf : α → Dict
  defaultColumns : List Dict → Except BadParameter (List Col)
  columns : Option String := none

/-- How a stream ends early. -/
inductive StreamError (ε : Type)
  | badParameter (e : BadParameter)
  | raised (e : Exc ε)

/-- The rows written, and how the stream ended. -/
structure CsvEmission (ε : Type) where
  rows : List (List String)
  outcome : Except (StreamError ε) ℕ

variable {α ε : Type} (s : ColumnsStream α)

/-- `_resolve_columns`. -/
def resolveColumns (records : List Dict) : Except BadParameter (List Col) := do
  let base ← s.defaultColumns records
  let cols ← parseColumns T s.columns base
  return dedupeHeaders T cols

/-- The header row. -/
def headerRow (cols : List Col) : List String := cols.map fun c => csvSafe T c.header

/-- The row of a record. -/
def dataRow (cols : List Col) (record : Dict) : List String := cols.map fun c => csvSafe T (cell T record c)

/-- The loop over the pages. The columns are there once the header has been written. -/
def emitPages : Option (List Col) → List (List α) →
    List (List String) × Except BadParameter (Option (List Col))
  | cols, [] => ([], .ok cols)
  | some cols, page :: pages =>
    let (rows, outcome) := emitPages (some cols) pages
    (page.map (fun item => dataRow T cols (s.recordOf item)) ++ rows, outcome)
  | none, page :: pages =>
    match resolveColumns T s (page.map s.recordOf) with
    | .error e => ([], .error e)
    | .ok cols =>
      let (rows, outcome) := emitPages (some cols) pages
      (headerRow T cols :: (page.map (fun item => dataRow T cols (s.recordOf item)) ++ rows), outcome)

/-- `_emit_columns_stream`, as CSV. -/
def emitColumnsStream (pages : Generator ε (List α)) : CsvEmission ε :=
  match emitPages T s none pages.yielded with
  | (rows, .error e) => ⟨rows, .error (.badParameter e)⟩
  | (rows, .ok cols) => match pages.outcome, cols with
    | .error e, _ => ⟨rows, .error (.raised e)⟩
    | .ok (), some _ => ⟨rows, .ok pages.yielded.flatten.length⟩
    | .ok (), none => match resolveColumns T s [] with
      | .error e => ⟨rows, .error (.badParameter e)⟩
      | .ok cols => ⟨rows ++ [headerRow T cols], .ok pages.yielded.flatten.length⟩

/-- The columns that the header row is written from. -/
def headerColumns (pages : Generator ε (List α)) : Option (List Col) :=
  match pages.yielded, pages.outcome with
  | page :: _, _ => (resolveColumns T s (page.map s.recordOf)).toOption
  | [], .ok () => (resolveColumns T s []).toOption
  | [], .error _ => none

/-! ## Distinct headers -/

variable {T} {header cell : String} {seen : List String} {cols : List Col}

theorem numbered_injective (header : String) :
    Function.Injective fun n => T.casefold (numbered header n) := fun n m h => by
  simp only [numbered, Text.casefold_suffix] at h
  exact Text.suffix_injective h

/-- A header is given once. -/
theorem freshHeader_notMem (seen : List String) (header : String) :
    T.casefold (freshHeader T seen header) ∉ seen := by
  unfold freshHeader
  by_cases h : T.casefold header ∈ seen
  · rw [if_pos h]
    exact Fresh.search_notMem (numbered_injective header) (Nat.lt_succ_self _) 2
  · rwa [if_neg h]

/-- A header is given as it is or with a number. -/
theorem freshHeader_eq (seen : List String) (header : String) :
    freshHeader T seen header = header ∨ ∃ n, freshHeader T seen header = numbered header n := by
  unfold freshHeader
  by_cases h : T.casefold header ∈ seen
  · rw [if_pos h]
    exact .inr ⟨_, rfl⟩
  · rw [if_neg h]
    exact .inl rfl

theorem nodup_dedupeLoop :
    ((dedupeLoop T seen cols).map fun c => T.casefold c.header).Nodup ∧
      ∀ c ∈ dedupeLoop T seen cols, T.casefold c.header ∉ seen := by
  induction cols generalizing seen with
  | nil => exact ⟨List.nodup_nil, fun c hc => absurd hc List.not_mem_nil⟩
  | cons c cols ih =>
    obtain ⟨hnodup, hseen⟩ := @ih (T.casefold (freshHeader T seen c.header) :: seen)
    rw [dedupeLoop, List.map_cons, List.nodup_cons]
    refine ⟨⟨fun hmem => ?_, hnodup⟩, fun d hd => ?_⟩
    · obtain ⟨d, hd, heq⟩ := List.mem_map.mp hmem
      exact hseen d hd (heq ▸ List.mem_cons_self)
    · rcases List.mem_cons.mp hd with rfl | hd
      · exact freshHeader_notMem seen c.header
      · exact fun hmem => hseen d hd (List.mem_cons_of_mem _ hmem)

/-- **The headers differ, ignoring case.** -/
theorem nodup_dedupeHeaders : ((dedupeHeaders T cols).map fun c => T.casefold c.header).Nodup :=
  nodup_dedupeLoop.1

theorem mem_dedupeLoop {d : Col} (hd : d ∈ dedupeLoop T seen cols) :
    ∃ c ∈ cols, d.header = c.header ∨ ∃ n, d.header = numbered c.header n := by
  induction cols generalizing seen with
  | nil => exact absurd hd List.not_mem_nil
  | cons c cols ih =>
    rcases List.mem_cons.mp hd with rfl | hd
    · exact ⟨c, List.mem_cons_self, freshHeader_eq seen c.header⟩
    · obtain ⟨c', hc', h⟩ := ih hd
      exact ⟨c', List.mem_cons_of_mem _ hc', h⟩

/-! ## Quoted cells -/

theorem csvSafe_eq (cell : String) : csvSafe T cell = if quoted T cell then "'" ++ cell else cell := by
  unfold csvSafe quoted
  by_cases he : cell = emptyCell
  · simp [he]
  · cases hf : formulaLed cell <;> cases hs : signedNumber T cell <;> simp [he]

/-- **No cell is a formula.** -/
theorem formulaLed_csvSafe (h : formulaLed (csvSafe T cell) = true) :
    csvSafe T cell = emptyCell ∨ signedNumber T (csvSafe T cell) = true := by
  rw [csvSafe_eq] at h ⊢
  by_cases hq : quoted T cell = true
  · rw [if_pos hq, formulaLed, String.toList_append] at h
    cases h
  · rw [if_neg hq] at h ⊢
    simp only [quoted, Bool.and_eq_true, decide_eq_true_eq, Bool.not_eq_true', not_and,
      Bool.not_eq_false] at hq
    by_cases he : cell = emptyCell
    · exact .inl he
    · exact .inr (hq ⟨h, by simpa using he⟩)

theorem casefold_apostrophe (s : String) : T.casefold ("'" ++ s) = "'" ++ T.casefold s := by
  have hself : T.casefold "'" = "'" :=
    Text.casefold_eq_self (List.forall_mem_singleton.mpr (by decide))
  rw [Text.casefold_append, hself]

theorem apostrophe_injective {s t : String} (h : "'" ++ s = "'" ++ t) : s = t := by
  have h := congrArg String.toList h
  simp only [String.toList_append, List.append_cancel_left_eq] at h
  exact String.toList_injective h

/-- The folding of a header that is to be quoted begins as the header does. -/
theorem casefold_ne_apostrophe (h : quoted T cell = true) (s : String) :
    T.casefold cell ≠ "'" ++ s := by
  intro heq
  have hled : formulaLed cell = true := by
    simp only [quoted, Bool.and_eq_true] at h
    exact h.1.1
  have heq := congrArg (fun t => t.toList.head?) heq
  rw [formulaLed] at hled
  cases hc : cell.toList with
  | nil =>
    rw [hc] at hled
    cases hled
  | cons c cs =>
    rw [hc] at hled
    have hmem := of_decide_eq_true hled
    have hascii : c.toNat < 128 ∧ c.toLower = c ∧ c ≠ '\'' := by
      simp only [List.mem_cons, List.not_mem_nil, or_false] at hmem
      rcases hmem with rfl | rfl | rfl | rfl | rfl | rfl <;> decide
    rw [Text.casefold, hc, List.flatMap_cons, T.fold_ascii c hascii.1, hascii.2.1,
      String.toList_append] at heq
    exact hascii.2.2 (by simpa using heq)

/-- **A header that is to be quoted reads, behind its apostrophe, like another header.** -/
def QuoteClash (T : Text) (cols : List Col) : Prop :=
  ∃ c ∈ cols, ∃ d ∈ cols, quoted T c.header = true ∧
    T.casefold d.header = "'" ++ T.casefold c.header

/-- The cells of a header row differ unless two headers clash. -/
theorem nodup_headerRow_iff (h : (cols.map fun c => T.casefold c.header).Nodup) :
    ((headerRow T cols).map T.casefold).Nodup ↔ ¬ QuoteClash T cols := by
  rw [headerRow, List.map_map]
  have hkey (c : Col) : (T.casefold ∘ fun c => csvSafe T c.header) c =
      if quoted T c.header then "'" ++ T.casefold c.header else T.casefold c.header := by
    rw [Function.comp_apply, csvSafe_eq]
    split_ifs
    · rw [casefold_apostrophe]
    · rfl
  constructor
  · rintro hnodup ⟨c, hc, d, hd, hq, heq⟩
    have hdq : ¬ quoted T d.header = true := fun hq => casefold_ne_apostrophe hq _ heq
    have hcd : c = d := List.inj_on_of_nodup_map hnodup hc hd (by rw [hkey, hkey, if_pos hq, if_neg hdq, heq])
    exact hdq (hcd ▸ hq)
  · intro hclash
    refine List.Nodup.map_on (fun c hc d hd heq => ?_) h.of_map
    rw [hkey, hkey] at heq
    refine List.inj_on_of_nodup_map h hc hd ?_
    by_cases hcq : quoted T c.header = true <;> by_cases hdq : quoted T d.header = true
    · rw [if_pos hcq, if_pos hdq] at heq
      exact apostrophe_injective heq
    · rw [if_pos hcq, if_neg hdq] at heq
      exact absurd ⟨c, hc, d, hd, hcq, heq.symm⟩ hclash
    · rw [if_neg hcq, if_pos hdq] at heq
      exact absurd ⟨d, hd, c, hc, hdq, heq⟩ hclash
    · rwa [if_neg hcq, if_neg hdq] at heq

/-! ## The rows of an export -/

variable {s} {pages : Generator ε (List α)}

/-- **A safe export** of the records: the header cells differ, ignoring case; below the header there is
a row for each record, with a cell for each column, in the order of the columns; and a cell that
begins like a formula is empty or a number. -/
structure SafeCsv (T : Text) (records : List Dict) (rows : List (List String)) : Prop where
  distinct : ∀ header ∈ rows.head?, (header.map T.casefold).Nodup
  aligned : rows = [] ∨ ∃ cols, rows = headerRow T cols :: records.map (dataRow T cols)
  lengths : ∀ header ∈ rows.head?, ∀ row ∈ rows.tail, row.length = header.length
  neutral : ∀ row ∈ rows, ∀ cell ∈ row, formulaLed cell = true →
    cell = emptyCell ∨ signedNumber T cell = true

/-- Below the header there is a row for each record. -/
theorem emitPages_some (pages : List (List α)) : emitPages T s (some cols) pages =
    ((pages.flatten.map s.recordOf).map (dataRow T cols), .ok (some cols)) := by
  induction pages with
  | nil => rfl
  | cons page pages ih =>
    rw [emitPages, ih]
    simp [List.map_map, Function.comp_def]

/-- The rows of an export: the header row, when it is written, and a row for each record. -/
theorem rows_emitColumnsStream :
    (emitColumnsStream T s pages).rows = match headerColumns T s pages with
      | none => []
      | some cols =>
        headerRow T cols :: (pages.yielded.flatten.map s.recordOf).map (dataRow T cols) := by
  obtain ⟨yielded, outcome⟩ := pages
  cases yielded with
  | nil =>
    cases outcome with
    | error e => rfl
    | ok u => cases hcols : resolveColumns T s [] <;>
        simp [emitColumnsStream, emitPages, headerColumns, hcols, Except.toOption]
  | cons page pages =>
    cases hcols : resolveColumns T s (page.map s.recordOf) with
    | error e => simp [emitColumnsStream, emitPages, headerColumns, hcols, Except.toOption]
    | ok cols =>
      have hpages : emitPages T s none (page :: pages) =
          (headerRow T cols :: ((page :: pages).flatten.map s.recordOf).map (dataRow T cols),
            .ok (some cols)) := by
        rw [emitPages, hcols]
        dsimp only
        rw [emitPages_some]
        simp [List.map_map, Function.comp_def]
      cases outcome <;>
        simp only [emitColumnsStream, hpages, headerColumns, hcols, Except.toOption]

/-- The columns of a header row have been made unique. -/
theorem headerColumns_eq (h : headerColumns T s pages = some cols) :
    ∃ records base given, s.defaultColumns records = .ok base ∧
      parseColumns T s.columns base = .ok given ∧ cols = dedupeHeaders T given := by
  have hres : ∃ records, resolveColumns T s records = .ok cols := by
    obtain ⟨yielded, outcome⟩ := pages
    rcases yielded with _ | ⟨page, pages⟩
    · rcases outcome with e | u
      · cases h
      · exact ⟨[], by
          cases hr : resolveColumns T s [] with
          | error e => simp [headerColumns, hr, Except.toOption] at h
          | ok cols' => simpa [headerColumns, hr, Except.toOption] using h⟩
    · exact ⟨page.map s.recordOf, by
        cases hr : resolveColumns T s (page.map s.recordOf) with
        | error e => simp [headerColumns, hr, Except.toOption] at h
        | ok cols' => simpa [headerColumns, hr, Except.toOption] using h⟩
  obtain ⟨records, hres⟩ := hres
  obtain ⟨base, hbase, hres⟩ := Except.bind_eq_ok.mp hres
  obtain ⟨given, hgiven, hres⟩ := Except.bind_eq_ok.mp hres
  exact ⟨records, base, given, hbase, hgiven, (Except.pure_eq_ok.mp hres).symm⟩

/-- The rows of an export under unique headers are safe unless two headers clash. -/
theorem safeCsv_rows_iff {records : List Dict} (h : (cols.map fun c => T.casefold c.header).Nodup) :
    SafeCsv T records (headerRow T cols :: records.map (dataRow T cols)) ↔ ¬ QuoteClash T cols := by
  have hiff := nodup_headerRow_iff h
  constructor
  · intro hsafe
    exact hiff.mp (hsafe.distinct _ rfl)
  · intro hclash
    refine ⟨?_, .inr ⟨_, rfl⟩, ?_, ?_⟩
    · rintro _ ⟨⟩
      exact hiff.mpr hclash
    · rintro _ ⟨⟩ row hrow
      obtain ⟨record, -, rfl⟩ := List.mem_map.mp hrow
      rw [dataRow, headerRow, List.length_map, List.length_map]
    · intro row hrow cell hcell hled
      have hsafe : ∃ text, cell = csvSafe T text := by
        rcases List.mem_cons.mp hrow with rfl | hrow
        · obtain ⟨c, -, rfl⟩ := List.mem_map.mp hcell
          exact ⟨_, rfl⟩
        · obtain ⟨record, -, rfl⟩ := List.mem_map.mp hrow
          obtain ⟨c, -, rfl⟩ := List.mem_map.mp hcell
          exact ⟨_, rfl⟩
      obtain ⟨text, rfl⟩ := hsafe
      exact formulaLed_csvSafe hled

/-- No two headers clash when none of the columns given has a header that begins with an apostrophe. -/
theorem not_quoteClash_dedupeHeaders {T : Text} {cols : List Col}
    (h : ∀ c ∈ cols, (T.casefold c.header).toList.head? ≠ some '\'') :
    ¬ QuoteClash T (dedupeHeaders T cols) := by
  rintro ⟨c, hc, d, hd, hq, heq⟩
  obtain ⟨d', hd', hheader⟩ := mem_dedupeLoop hd
  have hhead : (T.casefold d.header).toList.head? = some '\'' := by
    rw [heq, String.toList_append]
    rfl
  refine h d' hd' ?_
  rcases hheader with hheader | ⟨n, hheader⟩
  · rwa [hheader] at hhead
  · rw [hheader, numbered, Text.casefold_suffix, String.toList_append, String.toList_append] at hhead
    cases hkey : (T.casefold d'.header).toList with
    | nil =>
      rw [hkey] at hhead
      exact absurd hhead (by simp)
    | cons x xs => simpa [hkey] using hhead

end Columns

/-- **An export is safe exactly when no header that is to be quoted reads, behind its apostrophe, like
another header.** -/
theorem safeCsv_iff {α ε : Type} (T : Text) (s : ColumnsStream α) (pages : Generator ε (List α)) :
    SafeCsv T (pages.yielded.flatten.map s.recordOf) (emitColumnsStream T s pages).rows ↔
      ∀ cols ∈ headerColumns T s pages, ¬ QuoteClash T cols := by
  rw [rows_emitColumnsStream]
  cases hcols : headerColumns T s pages with
  | none =>
    exact ⟨fun _ => nofun, fun _ => ⟨nofun, .inl rfl, nofun, nofun⟩⟩
  | some cols =>
    obtain ⟨_, _, given, -, -, rfl⟩ := headerColumns_eq hcols
    rw [safeCsv_rows_iff nodup_dedupeHeaders]
    simp

/-- An export is safe when no column given, by `--columns` or by the view, has a header that begins
with an apostrophe. -/
theorem safeCsv_of_headers {α ε : Type} {T : Text} {s : ColumnsStream α}
    (pages : Generator ε (List α))
    (h : ∀ records base given, s.defaultColumns records = .ok base →
      parseColumns T s.columns base = .ok given →
      ∀ c ∈ given, (T.casefold c.header).toList.head? ≠ some '\'') :
    SafeCsv T (pages.yielded.flatten.map s.recordOf) (emitColumnsStream T s pages).rows := by
  rw [rows_emitColumnsStream]
  cases hcols : headerColumns T s pages with
  | none => exact ⟨nofun, .inl rfl, nofun, nofun⟩
  | some cols =>
    obtain ⟨records, base, given, hbase, hgiven, rfl⟩ := headerColumns_eq hcols
    exact (safeCsv_rows_iff nodup_dedupeHeaders).mpr
      (not_quoteClash_dedupeHeaders (h records base given hbase hgiven))

/-- ASCII text. -/
def asciiText : Text where
  fold c := [c.toLower]
  fold_ascii _ _ := rfl
  upper := String.toUpper
  decimal _ := none
  floatRepr _ := ""
  repr s := "'" ++ s ++ "'"

/-- `export --columns "=X:run.id,'=X:run.state"`. -/
def clashingExport : ColumnsStream Dict :=
  { recordOf := id, defaultColumns := fun _ => .ok [], columns := some "=X:run.id,'=X:run.state" }

/-- The export writes two equal header cells. -/
theorem clashing_headers :
    ¬ SafeCsv asciiText [] (@emitColumnsStream asciiText _ Empty clashingExport ⟨[], .ok ()⟩).rows := by
  intro h
  have hrows : (@emitColumnsStream asciiText _ Empty clashingExport ⟨[], .ok ()⟩).rows =
      [["'=X", "'=X"]] := by decide +kernel
  rw [hrows] at h
  exact absurd (h.distinct _ rfl) (by decide +kernel)

end OpenMagpie
