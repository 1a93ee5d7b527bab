import Mathlib.Data.List.Infix
import OpenMagpie.Watches.Kinds

/-!
# Errors of the extensible unions

A row is validated as the built-in member of its kind, then as the plugin member, and pydantic reports
the errors of both branches, each behind a marker of its branch. `cleanUnionErrors` keeps the branch
that the row's kind belongs to. It tells from the errors themselves: the plugin member rejects a
built-in kind with a message that the cleaner looks for.

* `rejectBuiltinKind`, `cleanUnionErrors`: the rejection and the cleaner.
* `UnionRow`, `UnionReport`: what pydantic reports of the rows that fail.
* `Cleaned`: each row keeps the errors of its branch, without the marker.
* **`cleaned_iff`**: that is so exactly when no message of a row of another kind holds the text of the
  rejection, and no error of a row's branch is a tag error at a key like a marker.
-/

set_option autoImplicit false

namespace OpenMagpie

/-! ## The cleaner -/

/-- A segment of the location of an error. -/
inductive LocSeg
  | index (n : ℕ)
  | key (s : String)
  deriving DecidableEq

/-- An error of pydantic. -/
structure ErrorDetails where
  type : String
  loc : List LocSeg
  msg : String
  deriving DecidableEq

/-- `BUILTIN_KIND_REJECTION_HINT`. -/
def builtinKindRejectionHint : String := "is a built-in kind; it must validate as its typed union member"

/-- `_PLUGIN_MEMBER_LOC_NAMES`. -/
def pluginMemberLocNames : List String :=
  ["PluginActionWire", "PluginActionInput", "PluginRunWire", "PluginSourceSpec"]

/-- `reject_builtin_kind`, given the `repr` of strings. -/
def rejectBuiltinKind (repr : String → String) (kind : String) (builtinKinds : List String) :
    Except String String :=
  if strip kind.toList ≠ kind.toList then .error "kind must not be blank or padded with whitespace"
  else if kind ∈ builtinKinds then .error (repr kind ++ " " ++ builtinKindRejectionHint)
  else .ok kind

namespace LocSeg

/-- The segment begins with `_TAGGED_UNION_LOC_PREFIX`. -/
def isTagged : LocSeg → Bool
  | key s => "tagged-union[".toList.isPrefixOf s.toList
  | index _ => false

/-- The segment is the name of a plugin member. -/
def isMember : LocSeg → Bool
  | key s => pluginMemberLocNames.contains s
  | index _ => false

/-- `_is_union_marker`. -/
def isUnionMarker (seg : LocSeg) : Bool := seg.isTagged || seg.isMember

/-- No name of a plugin member begins like the marker of a built-in union. -/
theorem isMember_of_isTagged {seg : LocSeg} (h : seg.isTagged = true) : seg.isMember = false := by
  cases seg with
  | index n => rfl
  | key s =>
    refine Bool.eq_false_iff.mpr fun hmem => ?_
    have hs : s ∈ pluginMemberLocNames := List.contains_iff_mem.mp hmem
    have hall : ∀ s ∈ pluginMemberLocNames, (key s).isTagged = false := by decide
    rw [hall s hs] at h
    cases h

end LocSeg

open LocSeg

/-- `_union_prefix`. -/
def unionPrefix (loc : List LocSeg) : List LocSeg := loc.takeWhile fun seg => ! seg.isUnionMarker

/-- The segment at the union boundary, when there is one. -/
def boundaryMarker (loc : List LocSeg) : Option LocSeg := loc[(unionPrefix loc).length]?

namespace ErrorDetails

/-- The message holds the hint. -/
def hinted (err : ErrorDetails) : Bool :=
  decide (builtinKindRejectionHint.toList <:+: err.msg.toList)

/-- A tag error at a union marker. -/
def tagAtMarker (err : ErrorDetails) : Bool :=
  (err.type = "union_tag_invalid" || err.type = "union_tag_not_found") &&
    err.loc.getLast?.any isUnionMarker

/-- The error comes from the plugin member. -/
def fromFallback (err : ErrorDetails) : Bool := (boundaryMarker err.loc).any isMember

/-- The error without the segments of the union. -/
def stripped (err : ErrorDetails) : ErrorDetails :=
  let boundary := (unionPrefix err.loc).length
  { err with
    loc := (err.loc.zipIdx.filter fun (seg, i) =>
      ! (seg.isTagged || (i = boundary && seg.isMember))).map (·.1) }

end ErrorDetails

open ErrorDetails

/-- `builtin_prefixes`. -/
def builtinPrefixes (errors : List ErrorDetails) : List (List LocSeg) :=
  (errors.filter hinted).map fun err => unionPrefix err.loc

/-- The errors that the loop does not drop. -/
def survivors (errors : List ErrorDetails) : List ErrorDetails :=
  errors.filter fun err =>
    ! err.tagAtMarker && ! (err.fromFallback && decide (unionPrefix err.loc ∈ builtinPrefixes errors))

/-- `clean_union_errors`. -/
def cleanUnionErrors (errors : List ErrorDetails) : List ErrorDetails :=
  (survivors errors).map stripped

/-! ## What pydantic reports -/

/-- A row that fails: where it is, its kind when it has one, the markers of the two branches, and the
errors of each. -/
structure UnionRow where
  above : List LocSeg
  kind : Option String
  label : LocSeg
  member : LocSeg
  typed : List ErrorDetails
  fallback : List ErrorDetails

namespace UnionRow

def errors (row : UnionRow) : List ErrorDetails := row.typed ++ row.fallback

/-- The kind is that of a built-in member. -/
def IsBuiltin (builtinKinds : List String) (row : UnionRow) : Prop := ∃ kind ∈ row.kind, kind ∈ builtinKinds

instance (builtinKinds : List String) (row : UnionRow) : Decidable (row.IsBuiltin builtinKinds) := by
  unfold IsBuiltin
  infer_instance

/-- The errors of the branch that the row's kind belongs to. -/
def own (builtinKinds : List String) (row : UnionRow) : List ErrorDetails :=
  if row.IsBuiltin builtinKinds then row.typed else row.fallback

/-- **What pydantic reports of a row.** An error of a branch stands behind the branch's marker. For a
built-in kind the typed branch has errors and the plugin member rejects the kind; for another kind the
typed branch has the tag error, which quotes the kind, and the plugin member has errors. -/
structure Reported (repr : String → String) (builtinKinds : List String) (row : UnionRow) : Prop where
  above_plain : ∀ seg ∈ row.above, isUnionMarker seg = false
  label_tagged : isTagged row.label = true
  member_name : isMember row.member = true
  typed_loc : ∀ e ∈ row.typed, ∃ rest, e.loc = row.above ++ row.label :: rest
  fallback_loc : ∀ e ∈ row.fallback, ∃ rest, e.loc = row.above ++ row.member :: rest
  builtin : ∀ kind ∈ row.kind, kind ∈ builtinKinds → row.typed ≠ [] ∧
    ∃ e ∈ row.fallback, ∃ text, rejectBuiltinKind repr kind builtinKinds = .error text ∧
      e.msg = "Value error, " ++ text
  other : ¬ row.IsBuiltin builtinKinds → row.fallback ≠ [] ∧ ∃ tag, row.typed = [tag] ∧
    tag.loc = row.above ++ [row.label] ∧ tag.tagAtMarker = true ∧
    ∀ kind ∈ row.kind, kind.toList <:+: tag.msg.toList

end UnionRow

/-- **What pydantic reports of a list of rows**: each is reported, in turn, at its own place. A
built-in kind is not padded. -/
structure UnionReport (repr : String → String) (builtinKinds : List String) where
  rows : List UnionRow
  reported : ∀ row ∈ rows, row.Reported repr builtinKinds
  distinct : (rows.map (·.above)).Nodup
  trimmed : ∀ kind ∈ builtinKinds, strip kind.toList = kind.toList

/-- `ValidationError.errors`. -/
def UnionReport.errors {repr : String → String} {builtinKinds : List String}
    (report : UnionReport repr builtinKinds) : List ErrorDetails := report.rows.flatMap (·.errors)

/-- **The errors are cleaned**: each row keeps the errors of its branch, so at least one, and what is
kept of a row has lost the marker at the boundary. -/
structure Cleaned {repr : String → String} {builtinKinds : List String}
    (report : UnionReport repr builtinKinds) : Prop where
  own : ∀ row ∈ report.rows, ∀ e ∈ row.own builtinKinds, e ∈ survivors report.errors
  some : ∀ row ∈ report.rows, ∃ e ∈ row.errors, e ∈ survivors report.errors
  nonempty : report.errors ≠ [] → cleanUnionErrors report.errors ≠ []
  unmarked : ∀ row ∈ report.rows, ∀ e ∈ row.errors, ∃ marker rest,
    e.loc = row.above ++ marker :: rest ∧
      e.stripped.loc = row.above ++ rest.filter fun seg => ! seg.isTagged

/-! ## Locations -/

section Locations

variable {above rest : List LocSeg} {marker : LocSeg} {err : ErrorDetails}

theorem unionPrefix_append (habove : ∀ seg ∈ above, isUnionMarker seg = false)
    (hmarker : isUnionMarker marker = true) : unionPrefix (above ++ marker :: rest) = above := by
  rw [unionPrefix, List.takeWhile_append_of_pos fun seg hseg => by rw [habove seg hseg]; rfl,
    List.takeWhile_cons_of_neg (by rw [hmarker]; decide), List.append_nil]

theorem boundaryMarker_append (habove : ∀ seg ∈ above, isUnionMarker seg = false)
    (hmarker : isUnionMarker marker = true) :
    boundaryMarker (above ++ marker :: rest) = some marker := by
  rw [boundaryMarker, unionPrefix_append habove hmarker, List.getElem?_append_right (Nat.le_refl _),
    Nat.sub_self, List.getElem?_cons_zero]

/-- Beyond the boundary the segments of built-in unions are stripped. -/
theorem strip_beyond {boundary n : ℕ} (hn : boundary < n) (segs : List LocSeg) :
    ((segs.zipIdx n).filter fun (seg, i) =>
      ! (seg.isTagged || (i = boundary && seg.isMember))).map (·.1) =
      segs.filter fun seg => ! seg.isTagged := by
  induction segs generalizing n with
  | nil => rfl
  | cons seg segs ih =>
    have hne : n ≠ boundary := Nat.ne_of_gt hn
    rw [List.zipIdx_cons]
    by_cases hseg : seg.isTagged = true
    · rw [List.filter_cons_of_neg (by simp [hseg]), List.filter_cons_of_neg (by simp [hseg]),
        ih (Nat.lt_succ_of_lt hn)]
    · rw [List.filter_cons_of_pos (by simp [hseg, hne]), List.filter_cons_of_pos (by simp [hseg]),
        List.map_cons, ih (Nat.lt_succ_of_lt hn)]

/-- Before the boundary there is nothing to strip. -/
theorem strip_before {boundary n : ℕ} {segs : List LocSeg}
    (h : ∀ seg ∈ segs, isUnionMarker seg = false) :
    ((segs.zipIdx n).filter fun (seg, i) =>
      ! (seg.isTagged || (i = boundary && seg.isMember))).map (·.1) = segs := by
  induction segs generalizing n with
  | nil => rfl
  | cons seg segs ih =>
    obtain ⟨hseg, hsegs⟩ := List.forall_mem_cons.mp h
    obtain ⟨htagged, hmember⟩ := Bool.or_eq_false_iff.mp hseg
    rw [List.zipIdx_cons, List.filter_cons_of_pos (by simp [htagged, hmember]), List.map_cons,
      ih hsegs]

/-- **The marker at the boundary is stripped.** -/
theorem stripped_loc (habove : ∀ seg ∈ above, isUnionMarker seg = false)
    (hmarker : isUnionMarker marker = true) (hloc : err.loc = above ++ marker :: rest) :
    err.stripped.loc = above ++ rest.filter fun seg => ! seg.isTagged := by
  have hdrop : (! (marker.isTagged || (decide (above.length = above.length) && marker.isMember))) =
      false := by
    rw [decide_eq_true rfl, Bool.true_and, ← isUnionMarker, hmarker]
    rfl
  simp only [stripped, hloc, unionPrefix_append habove hmarker]
  rw [List.zipIdx_append, List.filter_append, List.map_append, strip_before habove, Nat.zero_add,
    List.zipIdx_cons, List.filter_cons_of_neg (by rw [hdrop]; decide),
    strip_beyond (Nat.lt_succ_self _)]

end Locations

/-! ## The rows of a report -/

section Rows

variable {repr : String → String} {builtinKinds : List String} {row : UnionRow} {e : ErrorDetails}
  {report : UnionReport repr builtinKinds}

namespace UnionRow.Reported

theorem label_marker (h : row.Reported repr builtinKinds) : isUnionMarker row.label = true :=
  Bool.or_eq_true_iff.mpr (.inl h.label_tagged)

theorem member_marker (h : row.Reported repr builtinKinds) : isUnionMarker row.member = true :=
  Bool.or_eq_true_iff.mpr (.inr h.member_name)

/-- An error of a row stands behind a marker at the row's place. -/
theorem loc_eq (h : row.Reported repr builtinKinds) (he : e ∈ row.errors) : ∃ marker rest,
    isUnionMarker marker = true ∧ e.loc = row.above ++ marker :: rest := by
  rcases List.mem_append.mp he with he | he
  · obtain ⟨rest, hloc⟩ := h.typed_loc e he
    exact ⟨_, rest, h.label_marker, hloc⟩
  · obtain ⟨rest, hloc⟩ := h.fallback_loc e he
    exact ⟨_, rest, h.member_marker, hloc⟩

theorem unionPrefix_eq (h : row.Reported repr builtinKinds) (he : e ∈ row.errors) :
    unionPrefix e.loc = row.above := by
  obtain ⟨marker, rest, hmarker, hloc⟩ := h.loc_eq he
  rw [hloc, unionPrefix_append h.above_plain hmarker]

/-- The marker tells the branches apart. -/
theorem fromFallback_typed (h : row.Reported repr builtinKinds) (he : e ∈ row.typed) :
    e.fromFallback = false := by
  obtain ⟨rest, hloc⟩ := h.typed_loc e he
  rw [fromFallback, hloc, boundaryMarker_append h.above_plain h.label_marker, Option.any_some]
  exact isMember_of_isTagged h.label_tagged

theorem fromFallback_fallback (h : row.Reported repr builtinKinds) (he : e ∈ row.fallback) :
    e.fromFallback = true := by
  obtain ⟨rest, hloc⟩ := h.fallback_loc e he
  rw [fromFallback, hloc, boundaryMarker_append h.above_plain h.member_marker, Option.any_some]
  exact h.member_name

/-- The branch that a row belongs to has errors. -/
theorem own_ne_nil (h : row.Reported repr builtinKinds) : row.own builtinKinds ≠ [] := by
  unfold UnionRow.own
  by_cases hb : row.IsBuiltin builtinKinds
  · obtain ⟨kind, hkind, hmem⟩ := hb
    rw [if_pos ⟨kind, hkind, hmem⟩]
    exact (h.builtin kind hkind hmem).1
  · rw [if_neg hb]
    exact (h.other hb).1

theorem own_subset (row : UnionRow) : row.own builtinKinds ⊆ row.errors := by
  unfold UnionRow.own
  split_ifs
  · exact List.subset_append_left _ _
  · exact List.subset_append_right _ _

end UnionRow.Reported

theorem mem_survivors {errors : List ErrorDetails} : e ∈ survivors errors ↔ e ∈ errors ∧
    e.tagAtMarker = false ∧ ¬ (e.fromFallback = true ∧ unionPrefix e.loc ∈ builtinPrefixes errors) := by
  rw [survivors, List.mem_filter, Bool.and_eq_true, Bool.not_eq_true', Bool.not_eq_true',
    Bool.and_eq_false_iff, decide_eq_false_iff_not, not_and_or, Bool.not_eq_true]

/-- A row's place is taken for a built-in kind's when one of its messages holds the hint. -/
theorem above_mem_builtinPrefixes_iff (hrow : row ∈ report.rows) :
    row.above ∈ builtinPrefixes report.errors ↔ ∃ e ∈ row.errors, e.hinted = true := by
  have hreported := report.reported row hrow
  constructor
  · intro h
    obtain ⟨e, he, hplace⟩ := List.mem_map.mp h
    obtain ⟨hmem, hhint⟩ := List.mem_filter.mp he
    obtain ⟨row', hrow', he⟩ := List.mem_flatMap.mp hmem
    rw [(report.reported row' hrow').unionPrefix_eq he] at hplace
    obtain rfl := List.inj_on_of_nodup_map report.distinct hrow' hrow hplace
    exact ⟨e, he, hhint⟩
  · rintro ⟨e, he, hhint⟩
    exact List.mem_map.mpr ⟨e, List.mem_filter.mpr ⟨List.mem_flatMap.mpr ⟨row, hrow, he⟩, hhint⟩,
      hreported.unionPrefix_eq he⟩

/-- An error of the branch that its row belongs to survives unless it is a tag error at a marker or
the row is taken for one of a built-in kind. -/
theorem own_mem_survivors_iff (hrow : row ∈ report.rows) (he : e ∈ row.own builtinKinds) :
    e ∈ survivors report.errors ↔ e.tagAtMarker = false ∧
      (¬ row.IsBuiltin builtinKinds → ∀ e ∈ row.errors, e.hinted = false) := by
  have hreported := report.reported row hrow
  have herrors := UnionRow.Reported.own_subset row he
  have hmem : e ∈ report.errors := List.mem_flatMap.mpr ⟨row, hrow, herrors⟩
  rw [mem_survivors, hreported.unionPrefix_eq herrors, above_mem_builtinPrefixes_iff hrow,
    and_iff_right hmem]
  refine and_congr_right fun _ => ?_
  unfold UnionRow.own at he
  by_cases hb : row.IsBuiltin builtinKinds
  · rw [if_pos hb] at he
    rw [hreported.fromFallback_typed he]
    exact ⟨fun _ h => absurd hb h, fun _ h => absurd h.1 (by decide)⟩
  · rw [if_neg hb] at he
    rw [hreported.fromFallback_fallback he]
    constructor
    · exact fun h _ e he => Bool.eq_false_iff.mpr fun hhint => h ⟨rfl, e, he, hhint⟩
    · rintro h ⟨-, e, he, hhint⟩
      rw [h hb e he] at hhint
      cases hhint

/-- **The errors are cleaned exactly when no message of a row of another kind holds the text of the
rejection, and no error of a row's branch is a tag error at a key like a marker.** -/
theorem cleaned_iff (repr : String → String) (builtinKinds : List String)
    (report : UnionReport repr builtinKinds) : Cleaned report ↔ ∀ row ∈ report.rows,
      (¬ row.IsBuiltin builtinKinds → ∀ e ∈ row.errors, e.hinted = false) ∧
      ∀ e ∈ row.own builtinKinds, e.tagAtMarker = false := by
  constructor
  · intro h row hrow
    obtain ⟨e, he⟩ := List.exists_mem_of_ne_nil _ (report.reported row hrow).own_ne_nil
    exact ⟨((own_mem_survivors_iff hrow he).mp (h.own row hrow e he)).2,
      fun e he => ((own_mem_survivors_iff hrow he).mp (h.own row hrow e he)).1⟩
  · intro h
    have hown : ∀ row ∈ report.rows, ∀ e ∈ row.own builtinKinds, e ∈ survivors report.errors :=
      fun row hrow e he => (own_mem_survivors_iff hrow he).mpr ⟨(h row hrow).2 e he, (h row hrow).1⟩
    have hsome : ∀ row ∈ report.rows, ∃ e ∈ row.errors, e ∈ survivors report.errors := by
      intro row hrow
      obtain ⟨e, he⟩ := List.exists_mem_of_ne_nil _ (report.reported row hrow).own_ne_nil
      exact ⟨e, UnionRow.Reported.own_subset row he, hown row hrow e he⟩
    refine ⟨hown, hsome, fun hne hnil => ?_, fun row hrow e he => ?_⟩
    · obtain ⟨e, he⟩ := List.exists_mem_of_ne_nil _ hne
      obtain ⟨row, hrow, -⟩ := List.mem_flatMap.mp he
      obtain ⟨e', -, he'⟩ := hsome row hrow
      rw [List.map_eq_nil_iff.mp hnil] at he'
      exact List.not_mem_nil he'
    · have hreported := report.reported row hrow
      obtain ⟨marker, rest, hmarker, hloc⟩ := hreported.loc_eq he
      exact ⟨marker, rest, hloc, stripped_loc hreported.above_plain hmarker hloc⟩

end Rows

/-! ## Two refused sources, and a kind that holds the text -/

/-- The errors of the first source: an `rss` source without a URL. -/
def missingUrlRow : UnionRow where
  above := [.key "sources", .index 0, .key "spec"]
  kind := some "rss"
  label := .key "tagged-union[RssSourceSpec]"
  member := .key "PluginSourceSpec"
  typed := [{
    type := "missing"
    loc := [.key "sources", .index 0, .key "spec", .key "tagged-union[RssSourceSpec]", .key "rss",
      .key "url"]
    msg := "Field required" }]
  fallback := [{
    type := "value_error"
    loc := [.key "sources", .index 0, .key "spec", .key "PluginSourceSpec", .key "kind"]
    msg := "Value error, " ++ ("'rss'" ++ " " ++ builtinKindRejectionHint) }]

/-- The errors of the second source: a plugin's source without a name. -/
def missingNameRow : UnionRow where
  above := [.key "sources", .index 1, .key "spec"]
  kind := some "acme"
  label := .key "tagged-union[RssSourceSpec]"
  member := .key "PluginSourceSpec"
  typed := [{
    type := "union_tag_invalid"
    loc := [.key "sources", .index 1, .key "spec", .key "tagged-union[RssSourceSpec]"]
    msg := "Input tag 'acme' does not match 'rss'" }]
  fallback := [{
    type := "missing"
    loc := [.key "sources", .index 1, .key "spec", .key "PluginSourceSpec", .key "name"]
    msg := "Field required" }]

theorem missingUrlRow_reported : missingUrlRow.Reported (fun s => "'" ++ s ++ "'") ["rss"] := by
  refine ⟨by decide +kernel, by decide +kernel, by decide +kernel, ?_, ?_, ?_, ?_⟩
  · intro e he
    obtain rfl := List.mem_singleton.mp he
    exact ⟨[.key "rss", .key "url"], rfl⟩
  · intro e he
    obtain rfl := List.mem_singleton.mp he
    exact ⟨[.key "kind"], rfl⟩
  · rintro _ ⟨⟩ -
    exact ⟨List.cons_ne_nil _ _, _, List.mem_singleton_self _,
      "'rss'" ++ " " ++ builtinKindRejectionHint,
      by decide +kernel, rfl⟩
  · exact fun h => absurd ⟨"rss", rfl, List.mem_singleton_self _⟩ h

theorem missingNameRow_reported : missingNameRow.Reported (fun s => "'" ++ s ++ "'") ["rss"] := by
  refine ⟨by decide +kernel, by decide +kernel, by decide +kernel, ?_, ?_, ?_, ?_⟩
  · intro e he
    obtain rfl := List.mem_singleton.mp he
    exact ⟨[], rfl⟩
  · intro e he
    obtain rfl := List.mem_singleton.mp he
    exact ⟨[.key "name"], rfl⟩
  · rintro _ ⟨⟩ hmem
    exact absurd hmem (by decide +kernel)
  · refine fun _ => ⟨List.cons_ne_nil _ _, _, rfl, rfl, by decide +kernel, ?_⟩
    rintro _ ⟨⟩
    exact of_decide_eq_true (by decide +kernel)

theorem reported_twoRefused : ∀ row ∈ [missingUrlRow, missingNameRow],
    row.Reported (fun s => "'" ++ s ++ "'") ["rss"] :=
  List.forall_mem_cons.mpr
    ⟨missingUrlRow_reported, List.forall_mem_singleton.mpr missingNameRow_reported⟩

theorem distinct_twoRefused : ([missingUrlRow, missingNameRow].map (·.above)).Nodup := by
  decide +kernel

theorem trimmed_rss : ∀ kind ∈ ["rss"], strip kind.toList = kind.toList := by decide +kernel

/-- What pydantic reports of the two sources. -/
def twoRefused : UnionReport (fun s => "'" ++ s ++ "'") ["rss"] :=
  ⟨[missingUrlRow, missingNameRow], reported_twoRefused, distinct_twoRefused, trimmed_rss⟩

/-- The missing URL and the missing name are left, at the sources' own places. -/
theorem twoRefused_cleaned : Cleaned twoRefused ∧
    cleanUnionErrors twoRefused.errors = [
      ⟨"missing", [.key "sources", .index 0, .key "spec", .key "rss", .key "url"], "Field required"⟩,
      ⟨"missing", [.key "sources", .index 1, .key "spec", .key "name"], "Field required"⟩] := by
  refine ⟨(cleaned_iff _ _ twoRefused).mpr ?_, by decide +kernel⟩
  refine List.forall_mem_cons.mpr ⟨⟨fun h => ?_, by decide +kernel⟩,
    List.forall_mem_singleton.mpr ⟨fun _ => by decide +kernel, by decide +kernel⟩⟩
  exact absurd ⟨"rss", rfl, List.mem_singleton_self _⟩ h

/-- The errors of a source whose kind is the text of the rejection: it is too long for a kind. -/
def quotedHintRow : UnionRow where
  above := [.key "sources", .index 0, .key "spec"]
  kind := some builtinKindRejectionHint
  label := .key "tagged-union[RssSourceSpec,RedditSubredditSourceSpec]"
  member := .key "PluginSourceSpec"
  typed := [{
    type := "union_tag_invalid"
    loc := [.key "sources", .index 0, .key "spec",
      .key "tagged-union[RssSourceSpec,RedditSubredditSourceSpec]"]
    msg := "Input tag '" ++ builtinKindRejectionHint ++ "' found using 'kind' does not match any of " ++
      "the expected tags: 'rss', 'reddit_subreddit'" }]
  fallback := [{
    type := "string_too_long"
    loc := [.key "sources", .index 0, .key "spec", .key "PluginSourceSpec", .key "kind"]
    msg := "String should have at most 32 characters" }]

/-- What pydantic reports of the source. -/
def quotedHint : UnionReport (fun s => "'" ++ s ++ "'") ["rss", "reddit_subreddit"] where
  rows := [quotedHintRow]
  reported := by
    intro row hrow
    obtain rfl := List.mem_singleton.mp hrow
    refine ⟨by decide +kernel, by decide +kernel, by decide +kernel, ?_, ?_, ?_, ?_⟩
    · intro e he
      obtain rfl := List.mem_singleton.mp he
      exact ⟨[], rfl⟩
    · intro e he
      obtain rfl := List.mem_singleton.mp he
      exact ⟨[.key "kind"], rfl⟩
    · rintro _ ⟨⟩ hmem
      exact absurd hmem (by decide +kernel)
    · refine fun _ => ⟨List.cons_ne_nil _ _, _, rfl, rfl, by decide +kernel, ?_⟩
      rintro _ ⟨⟩
      exact of_decide_eq_true (by decide +kernel)
  distinct := List.nodup_singleton _
  trimmed := by decide +kernel

/-- Nothing is left of the errors. -/
theorem quotedHint_swallowed : ¬ Cleaned quotedHint := by
  intro h
  have hnil : cleanUnionErrors quotedHint.errors = [] := by decide +kernel
  exact h.nonempty (by decide +kernel) hnil

end OpenMagpie
