import Mathlib.Tactic.Tauto
import OpenMagpie.Cli.Columns
import OpenMagpie.Lib.Table

/-!
# The listed column paths

`--print-columns` lists the dot-paths of a sample record, to be given back as `--columns`. A path is
the keys to a value joined by `.`; a `--columns` text is split at `,`, stripped, split at the first
`:`, and split at `.`.

* `flattenPaths`: the listed paths with their samples. `LeafAt`: the values they lead to.
* `columnKeys`: the keys that a path given back is read as.
* `PlainKeys`: keys without separators, the first of which begins, and the last of which ends, with a
  character that is not stripped. `columnKeys_eq_some_iff`: these are the keys that are read back.
* `listed_copies_iff`: the paths of a record give their samples back exactly when each is of plain
  keys, or is read as other keys that happen to lead to the same text.
* **`copies_iff`**: plain keys are enough, and only plain keys give back every value.
-/

set_option autoImplicit false

namespace OpenMagpie

open Python

/-! ## The listing -/

/-- `f"{prefix}.{key}" if prefix else key`. -/
def joinKey (above key : String) : String := if above = "" then key else above ++ "." ++ key

/-- The path of keys below a path. -/
def joinKeys (above : String) (keys : List String) : String := keys.foldl joinKey above

mutual

/-- The pairs of a value at a path. -/
def flattenValue (T : Text) (path : String) : Value → List (String × String)
  | .dict (kv :: kvs) => flattenDict T path (kv :: kvs)
  | v => [(path, renderLeaf T v)]

/-- The loop of `_flatten_paths`. -/
def flattenDict (T : Text) (above : String) : List (String × Value) → List (String × String)
  | [] => []
  | (key, v) :: kvs => flattenValue T (joinKey above key) v ++ flattenDict T above kvs

end

/-- `_flatten_paths`. -/
def flattenPaths (T : Text) (record : Dict) : List (String × String) := flattenDict T "" record

/-- Not a dict with keys. -/
def IsLeaf (v : Value) : Prop := ∀ kv kvs, v ≠ .dict (kv :: kvs)

/-- A value that keys lead to and no key leads on from. -/
inductive LeafAt : Value → List String → Value → Prop
  | leaf {v : Value} : IsLeaf v → LeafAt v [] v
  | key {kvs : Dict} {k : String} {w : Value} {ks : List String} {v : Value} :
      (k, w) ∈ kvs → LeafAt w ks v → LeafAt (.dict kvs) (k :: ks) v

variable {T : Text}

theorem leafAt_dict_iff {kvs : Dict} {k : String} {ks : List String} {v : Value} :
    LeafAt (.dict kvs) (k :: ks) v ↔ ∃ w, (k, w) ∈ kvs ∧ LeafAt w ks v :=
  ⟨fun h => by cases h with | key hmem h => exact ⟨_, hmem, h⟩, fun ⟨_, hmem, h⟩ => .key hmem h⟩

/-- A leaf is listed at its own path. -/
theorem mem_flattenValue_leaf {path p t : String} {v : Value} (h : IsLeaf v) :
    (p, t) ∈ flattenValue T path v ↔
      ∃ ks w, LeafAt v ks w ∧ p = joinKeys path ks ∧ t = renderLeaf T w := by
  have hflat : flattenValue T path v = [(path, renderLeaf T v)] := by
    unfold flattenValue
    split
    · exact absurd rfl (h _ _)
    · rfl
  rw [hflat, List.mem_singleton, Prod.mk.injEq]
  constructor
  · rintro ⟨rfl, rfl⟩
    exact ⟨[], v, .leaf h, rfl, rfl⟩
  · rintro ⟨ks, w, hw, rfl, rfl⟩
    cases hw with
    | leaf _ => exact ⟨rfl, rfl⟩
    | @key kvs _ _ _ _ hmem _ => cases kvs with
      | nil => exact absurd hmem List.not_mem_nil
      | cons kv kvs => exact absurd rfl (h _ _)

mutual

/-- **The listing is of the leaves.** -/
theorem mem_flattenValue {path p t : String} : (v : Value) →
    ((p, t) ∈ flattenValue T path v ↔
      ∃ ks w, LeafAt v ks w ∧ p = joinKeys path ks ∧ t = renderLeaf T w)
  | .dict (kv :: kvs) => by
    rw [flattenValue, mem_flattenDict (kv :: kvs)]
    constructor
    · rintro ⟨k, w, ks, v, hmem, h, hp, ht⟩
      exact ⟨k :: ks, v, .key hmem h, hp, ht⟩
    · rintro ⟨ks, v, h, hp, ht⟩
      cases h with
      | leaf hleaf => exact absurd rfl (hleaf _ _)
      | key hmem h => exact ⟨_, _, _, _, hmem, h, hp, ht⟩
  | .dict [] | .none | .bool _ | .int _ | .float _ | .str _ | .list _ =>
    mem_flattenValue_leaf nofun

theorem mem_flattenDict {above p t : String} : (kvs : Dict) →
    ((p, t) ∈ flattenDict T above kvs ↔
      ∃ k w ks v, (k, w) ∈ kvs ∧ LeafAt w ks v ∧ p = joinKeys above (k :: ks) ∧
        t = renderLeaf T v)
  | [] => by simp [flattenDict]
  | (key, v) :: kvs => by
    rw [flattenDict, List.mem_append, mem_flattenValue v, mem_flattenDict kvs]
    constructor
    · rintro (⟨ks, w, h, hp, ht⟩ | ⟨k, w, ks, v', hmem, h⟩)
      · exact ⟨key, v, ks, w, List.mem_cons_self, h, hp, ht⟩
      · exact ⟨k, w, ks, v', List.mem_cons_of_mem _ hmem, h⟩
    · rintro ⟨k, w, ks, v', hmem, h, hp, ht⟩
      rcases List.mem_cons.mp hmem with heq | hmem
      · obtain ⟨rfl, rfl⟩ := Prod.mk.inj heq
        exact .inl ⟨ks, v', h, hp, ht⟩
      · exact .inr ⟨k, w, ks, v', hmem, h, hp, ht⟩

end

theorem mem_flattenPaths {record : Dict} {p t : String} : (p, t) ∈ flattenPaths T record ↔
    ∃ k ks v, LeafAt (.dict record) (k :: ks) v ∧ p = joinKeys "" (k :: ks) ∧ t = renderLeaf T v := by
  rw [flattenPaths, mem_flattenDict]
  constructor
  · rintro ⟨k, w, ks, v, hmem, h, hp, ht⟩
    exact ⟨k, ks, v, .key hmem h, hp, ht⟩
  · rintro ⟨k, ks, v, h, hp, ht⟩
    obtain ⟨w, hmem, h⟩ := leafAt_dict_iff.mp h
    exact ⟨k, w, ks, v, hmem, h, hp, ht⟩

/-! ## Joined keys -/

section Join

variable {k : String} {ks : List String}

/-- `".".join`. -/
def dotted (ks : List String) : String := String.intercalate "." ks

theorem toList_dotted (ks : List String) :
    (dotted ks).toList = ['.'].intercalate (ks.map String.toList) := String.toList_intercalate

theorem joinKeys_cons (k : String) (ks : List String) : joinKeys "" (k :: ks) = joinKeys k ks := rfl

/-- Below a path that is not empty nothing is lost. -/
theorem joinKeys_eq (hk : k ≠ "") : joinKeys k ks = dotted (k :: ks) := by
  induction ks generalizing k with
  | nil => exact String.intercalate_singleton.symm
  | cons k' ks ih =>
    have hstep : joinKeys k (k' :: ks) = joinKeys (k ++ "." ++ k') ks := by
      rw [joinKeys, List.foldl_cons, joinKey, if_neg hk]
      rfl
    rw [hstep, ih, dotted, dotted, String.intercalate_cons_append, String.intercalate_cons_cons,
      String.append_assoc]
    intro h
    have := congrArg String.length h
    simp at this

/-- A first key that is empty is lost with its separator. -/
theorem length_joinKeys_le : (joinKeys k ks).length ≤ (dotted (k :: ks)).length := by
  induction ks generalizing k with
  | nil =>
    rw [dotted, String.intercalate_singleton]
    exact Nat.le_refl _
  | cons k' ks ih =>
    by_cases hk : k = ""
    · rw [hk, dotted, String.intercalate_cons_cons, String.length_append]
      exact Nat.le_trans ih (Nat.le_add_left _ _)
    · rw [joinKeys_eq hk]

theorem length_joinKeys_lt {k' : String} :
    (joinKeys "" (k' :: ks)).length < (dotted ("" :: k' :: ks)).length := by
  have h : (dotted ("" :: k' :: ks)).length = 1 + (dotted (k' :: ks)).length := by
    rw [dotted, String.intercalate_cons_cons, String.length_append]
    rfl
  rw [joinKeys_cons, h]
  exact Nat.lt_of_le_of_lt length_joinKeys_le (Nat.lt_add_of_pos_left Nat.one_pos)

end Join

/-! ## Reading a path back -/

/-- The keys that a path is read as, given back as `--columns`. -/
def columnKeys (T : Text) (path : String) : Option (List String) :=
  match parseColumns T (some path) [] with
  | .ok [c] => some (splitText '.' c.path)
  | _ => none

/-- **Plain keys**: without separators, the first begins and the last ends with a character that is
not stripped. The last may be empty. -/
structure PlainKeys (ks : List String) : Prop where
  separators : ∀ k ∈ ks, ∀ c ∈ k.toList, c ≠ '.' ∧ c ≠ ',' ∧ c ≠ ':'
  first : ∀ k ∈ ks.head?, ∃ c ∈ k.toList.head?, isSpace c = false
  last : ∀ k ∈ ks.getLast?, ∀ c ∈ k.toList.getLast?, isSpace c = false

section Split

variable {sep : Char} {s part : List Char}

theorem notMem_of_mem_splitOn (h : part ∈ s.splitOn sep) : sep ∉ part := by
  induction s generalizing part with
  | nil =>
    rw [List.splitOn_nil, List.mem_singleton] at h
    exact h ▸ List.not_mem_nil
  | cons x s ih =>
    rw [List.splitOn_cons_eq_if_modifyHead] at h
    by_cases hx : (x == sep) = true
    · rw [if_pos hx] at h
      rcases List.mem_cons.mp h with rfl | h
      · exact List.not_mem_nil
      · exact ih h
    · rw [if_neg hx] at h
      obtain ⟨p, ps, hps⟩ := List.exists_cons_of_ne_nil (List.splitOn_ne_nil sep s)
      rw [hps, List.modifyHead_cons] at h
      rcases List.mem_cons.mp h with rfl | h
      · refine fun hmem => ?_
        rcases List.mem_cons.mp hmem with rfl | hmem
        · exact hx (beq_self_eq_true _)
        · exact ih (hps ▸ List.mem_cons_self) hmem
      · exact ih (hps ▸ List.mem_cons_of_mem _ h)

theorem infix_intercalate {parts : List (List Char)} (h : part ∈ parts) :
    part <:+: [sep].intercalate parts := by
  induction parts with
  | nil => exact absurd h List.not_mem_nil
  | cons p ps ih =>
    by_cases hps : ps = []
    · rw [hps, List.mem_singleton] at h
      rw [hps, List.intercalate_singleton]
      exact h ▸ List.infix_refl _
    · rw [List.intercalate_cons_of_ne_nil hps]
      rcases List.mem_cons.mp h with rfl | h
      · rw [List.append_assoc]
        exact (List.prefix_append _ _).isInfix
      · exact (ih h).trans (List.suffix_append _ _).isInfix

theorem mem_of_mem_intercalate {parts : List (List Char)} {c : Char}
    (h : c ∈ [sep].intercalate parts) : c = sep ∨ ∃ p ∈ parts, c ∈ p := by
  induction parts with
  | nil => exact absurd h List.not_mem_nil
  | cons p ps ih =>
    by_cases hps : ps = []
    · rw [hps, List.intercalate_singleton] at h
      exact .inr ⟨p, List.mem_cons_self, h⟩
    · rw [List.intercalate_cons_of_ne_nil hps, List.mem_append, List.mem_append,
        List.mem_singleton] at h
      rcases h with (h | h) | h
      · exact .inr ⟨p, List.mem_cons_self, h⟩
      · exact .inl h
      · exact (ih h).imp_right fun ⟨q, hq, hc⟩ => ⟨q, List.mem_cons_of_mem _ hq, hc⟩

theorem infix_of_mem_splitOn (h : part ∈ s.splitOn sep) : part <:+: s := by
  have hinfix : part <:+: [sep].intercalate (s.splitOn sep) := infix_intercalate h
  rwa [List.intercalate_splitOn] at hinfix

theorem strip_isInfix (s : List Char) : strip s <:+: s :=
  (List.rdropWhile_prefix _ _).isInfix.trans (List.dropWhile_suffix _).isInfix

/-- A text is stripped of nothing when it neither begins nor ends with a space. -/
theorem strip_eq_self_iff : strip s = s ↔
    (∀ c ∈ s.head?, isSpace c = false) ∧ ∀ c ∈ s.getLast?, isSpace c = false := by
  have hfirst : s.dropWhile isSpace = s ↔ ∀ c ∈ s.head?, isSpace c = false := by
    cases s <;> simp [List.dropWhile_eq_self_iff]
  have hlast : s.rdropWhile isSpace = s ↔ ∀ c ∈ s.getLast?, isSpace c = false := by
    rw [List.rdropWhile_eq_self_iff]
    constructor
    · intro h c hc
      have hne : s ≠ [] := fun hnil => by simp [hnil] at hc
      rw [List.getLast?_eq_some_getLast hne, Option.mem_some_iff] at hc
      simpa [hc] using h hne
    · intro h hne
      simpa using h _ (List.getLast?_eq_some_getLast hne)
  rw [← hfirst, ← hlast]
  constructor
  · intro h
    have hdrop : s.dropWhile isSpace = s := by
      have hle := (List.rdropWhile_prefix isSpace (s.dropWhile isSpace)).length_le
      rw [← strip, h] at hle
      exact (List.dropWhile_suffix _).eq_of_length_le hle
    rw [strip, hdrop] at h
    exact ⟨hdrop, h⟩
  · rintro ⟨hdrop, hrdrop⟩
    rw [strip, hdrop, hrdrop]

end Split

section Reading

variable {path : String} {ks : List String}

/-- A text that parses to a single column has a single token. -/
theorem parseColumns_singleton {default : List Col} {c : Col} :
    parseColumns T (some path) default = .ok [c] ↔
      ∃ token header p, tokens path = [token] ∧ splitToken T token = .ok (header, p) ∧
        c = { header, path := p } := by
  have hcol (token : String) (c : Col) : col T token = .ok c ↔
      ∃ header p, splitToken T token = .ok (header, p) ∧ c = { header, path := p } := by
    rw [col, Except.bind_eq_ok]
    constructor
    · rintro ⟨⟨header, p⟩, hsplit, hc⟩
      exact ⟨header, p, hsplit, (Except.pure_eq_ok.mp hc).symm⟩
    · rintro ⟨header, p, hsplit, hc⟩
      exact ⟨(header, p), hsplit, Except.pure_eq_ok.mpr hc.symm⟩
  have hparse : parseColumns T (some path) default = .ok [c] ↔
      (tokens path).mapM (col T ·) = .ok [c] := by
    rw [parseColumns, Except.bind_eq_ok]
    constructor
    · rintro ⟨cols, hcols, hret⟩
      by_cases hnil : cols = []
      · simp [hnil, throw, throwThe, MonadExceptOf.throw, bind, Except.bind] at hret
      · rw [if_neg hnil] at hret
        obtain rfl := Except.pure_eq_ok.mp hret
        exact hcols
    · intro hcols
      exact ⟨[c], hcols, rfl⟩
  rw [hparse, Except.mapM_eq_ok]
  constructor
  · intro h
    generalize tokens path = toks at h
    cases h with
    | cons hc hnil =>
      cases hnil
      obtain ⟨header, p, hsplit, rfl⟩ := (hcol _ _).mp hc
      exact ⟨_, header, p, rfl, hsplit, rfl⟩
  · rintro ⟨token, header, p, htok, hsplit, rfl⟩
    rw [htok]
    exact .cons ((hcol _ _).mpr ⟨header, p, hsplit, rfl⟩) .nil

theorem columnKeys_eq_some : columnKeys T path = some ks ↔ ∃ token header p,
    tokens path = [token] ∧ splitToken T token = .ok (header, p) ∧ splitText '.' p = ks := by
  constructor
  · intro h
    rw [columnKeys] at h
    split at h
    · rename_i c hc
      obtain ⟨token, header, p, htok, hsplit, rfl⟩ := parseColumns_singleton.mp hc
      exact ⟨token, header, p, htok, hsplit, Option.some.inj h⟩
    · cases h
  · rintro ⟨token, header, p, htok, hsplit, hks⟩
    rw [columnKeys, parseColumns_singleton.mpr ⟨token, header, p, htok, hsplit, rfl⟩, ← hks]

/-- A token is a part between commas, stripped. -/
theorem exists_part_of_mem_tokens {token : String} (h : token ∈ tokens path) :
    ∃ part ∈ path.toList.splitOn ',', token.toList = strip part ∧ token.toList ≠ [] := by
  obtain ⟨t, ht, htoken⟩ := List.mem_filterMap.mp h
  obtain ⟨part, hpart, rfl⟩ := List.mem_map.mp ht
  by_cases hnil : strip part = []
  · simp [hnil] at htoken
  · rw [if_neg hnil] at htoken
    obtain rfl := Option.some.inj htoken
    rw [String.toList_ofList]
    exact ⟨part, hpart, rfl, hnil⟩

/-- The path of a token is the token, or what follows its colon. -/
theorem splitToken_ok {token header p : String} (h : splitToken T token = .ok (header, p)) :
    ':' ∉ token.toList ∧ p = token ∨ p.length < token.length := by
  rw [splitToken] at h
  dsimp only at h
  cases hrest : token.toList.dropWhile (· ≠ ':') with
  | nil =>
    rw [hrest] at h
    refine .inl ⟨fun hmem => ?_, (Prod.mk.inj (Except.ok.inj h)).2.symm⟩
    simpa using List.dropWhile_eq_nil_iff.mp hrest _ hmem
  | cons c rest =>
    rw [hrest] at h
    dsimp only at h
    split_ifs at h
    obtain rfl := (Prod.mk.inj (Except.ok.inj h)).2
    have hle := (List.dropWhile_suffix (l := token.toList) (· ≠ ':')).length_le
    rw [hrest, List.length_cons, String.length_toList] at hle
    rw [String.length_ofList]
    exact .inr hle

theorem splitToken_bare {token : String} (h : ':' ∉ token.toList) :
    ∃ header, splitToken T token = .ok (header, token) := by
  have hrest : token.toList.dropWhile (· ≠ ':') = [] :=
    List.dropWhile_eq_nil_iff.mpr fun c hc => by
      rw [decide_eq_true_eq]
      exact fun heq => h (heq ▸ hc)
  rw [splitToken]
  dsimp only
  rw [hrest]
  exact ⟨_, rfl⟩

theorem dotted_splitText (p : String) : dotted (splitText '.' p) = p := by
  refine String.toList_injective ?_
  rw [toList_dotted, splitText, List.map_map, List.map_congr_left (g := id), List.map_id,
    List.intercalate_splitOn]
  exact fun part _ => String.toList_ofList

theorem splitText_dotted (hks : ks ≠ []) (h : ∀ k ∈ ks, '.' ∉ k.toList) :
    splitText '.' (dotted ks) = ks := by
  rw [splitText, toList_dotted, List.splitOn_intercalate, List.map_map,
    List.map_congr_left (g := id), List.map_id]
  · exact fun k _ => String.ofList_toList
  · intro l hl
    obtain ⟨k, hk, rfl⟩ := List.mem_map.mp hl
    exact h k hk
  · simpa using hks

/-- **A path that is read back as its keys is one token, without a header, that nothing is stripped
of.** -/
theorem path_of_columnKeys {k : String} (h : columnKeys T (joinKeys "" (k :: ks)) = some (k :: ks)) :
    joinKeys "" (k :: ks) = dotted (k :: ks) ∧ ',' ∉ (dotted (k :: ks)).toList ∧
      ':' ∉ (dotted (k :: ks)).toList ∧ strip (dotted (k :: ks)).toList = (dotted (k :: ks)).toList ∧
      dotted (k :: ks) ≠ "" := by
  obtain ⟨token, header, p, htok, hsplit, hks⟩ := columnKeys_eq_some.mp h
  obtain rfl : p = dotted (k :: ks) := by rw [← hks, dotted_splitText]
  obtain ⟨part, hpart, hstrip, hne⟩ := exists_part_of_mem_tokens (htok ▸ List.mem_cons_self)
  -- no step of the reading can lose a character, because none gains one
  have hpath := (infix_of_mem_splitOn hpart).length_le
  have htoken := (strip_isInfix part).length_le
  have hjoin : (joinKeys k ks).length ≤ _ := length_joinKeys_le
  rw [← hstrip] at htoken
  rw [String.length_toList] at hpath htoken
  rw [joinKeys_cons] at hpath hpart ⊢
  rcases splitToken_ok hsplit with ⟨hcolon, rfl⟩ | hlt
  · have hpart' : part = (joinKeys k ks).toList :=
      (infix_of_mem_splitOn hpart).eq_of_length (by rw [String.length_toList]; omega)
    have hself : strip part = part :=
      (strip_isInfix part).eq_of_length (by rw [← hstrip, String.length_toList]; omega)
    have hdotted : (dotted (k :: ks)).toList = part := hstrip.trans hself
    exact ⟨String.toList_injective (hpart'.symm.trans hdotted.symm),
      hdotted ▸ notMem_of_mem_splitOn hpart, hcolon, by rw [hdotted, hself],
      fun hnil => hne (by rw [hnil]; rfl)⟩
  · omega

theorem head?_dotted {k : String} (hk : k ≠ "") :
    (dotted (k :: ks)).toList.head? = k.toList.head? := by
  have hne : k.toList ≠ [] := fun h => hk (String.toList_eq_nil_iff.mp h)
  cases ks with
  | nil => rw [dotted, String.intercalate_singleton]
  | cons k' ks =>
    rw [dotted, String.intercalate_cons_cons, String.toList_append, String.toList_append,
      List.append_assoc, List.head?_append_of_ne_nil _ hne]

/-- The joined keys end with a space when the last one does. -/
theorem getLast?_dotted_iff (ks : List String) :
    (∀ c ∈ (dotted ks).toList.getLast?, isSpace c = false) ↔
      ∀ k ∈ ks.getLast?, ∀ c ∈ k.toList.getLast?, isSpace c = false := by
  induction ks with
  | nil => simp [dotted]
  | cons k ks ih =>
    cases ks with
    | nil => simp [dotted]
    | cons k' ks =>
      rw [List.getLast?_cons_cons, ← ih, dotted, String.intercalate_cons_cons, ← dotted,
        String.toList_append, String.toList_append]
      by_cases hnil : (dotted (k' :: ks)).toList = []
      · have hdot : isSpace '.' = false := by decide
        have hlast : (k.toList ++ ".".toList).getLast? = some '.' := List.getLast?_concat
        rw [hnil, List.append_nil, hlast]
        simp [hdot]
      · rw [List.getLast?_append_of_ne_nil _ hnil]

/-- **The keys that are read back are the plain keys.** -/
theorem columnKeys_eq_some_iff {k : String} :
    columnKeys T (joinKeys "" (k :: ks)) = some (k :: ks) ↔ PlainKeys (k :: ks) := by
  constructor
  · intro h
    obtain ⟨hjoin, hcomma, hcolon, hstrip, hne⟩ := path_of_columnKeys h
    obtain ⟨hfirst, hlast⟩ := strip_eq_self_iff.mp hstrip
    have hk : k ≠ "" := by
      rintro rfl
      cases ks with
      | nil => exact hne (String.intercalate_singleton)
      | cons k' ks =>
        have hlt : (joinKeys "" (k' :: ks)).length < (dotted ("" :: k' :: ks)).length :=
          length_joinKeys_lt
        rw [joinKeys_cons] at hjoin hlt
        exact absurd (congrArg String.length hjoin) (Nat.ne_of_lt hlt)
    obtain ⟨token, header, p, -, -, hks⟩ := columnKeys_eq_some.mp h
    refine ⟨fun key hkey c hc => ⟨?_, ?_, ?_⟩, ?_, (getLast?_dotted_iff _).mp hlast⟩
    · rintro rfl
      rw [← hks] at hkey
      obtain ⟨part, hpart, rfl⟩ := List.mem_map.mp hkey
      rw [String.toList_ofList] at hc
      exact notMem_of_mem_splitOn hpart hc
    · rintro rfl
      rw [toList_dotted] at hcomma
      exact hcomma ((infix_intercalate (List.mem_map_of_mem hkey)).subset hc)
    · rintro rfl
      rw [toList_dotted] at hcolon
      exact hcolon ((infix_intercalate (List.mem_map_of_mem hkey)).subset hc)
    · rintro _ ⟨⟩
      obtain ⟨c, cs, hcs⟩ := List.exists_cons_of_ne_nil fun h => hk (String.toList_eq_nil_iff.mp h)
      rw [head?_dotted hk] at hfirst
      exact ⟨c, by rw [hcs]; rfl, hfirst c (by rw [hcs]; rfl)⟩
  · intro h
    obtain ⟨c, hc, hspace⟩ := h.first k rfl
    have hk : k ≠ "" := by
      rintro rfl
      cases hc
    have hnone (sep : Char) (hsep : sep ≠ '.') (hall : ∀ key ∈ k :: ks, sep ∉ key.toList) :
        sep ∉ (dotted (k :: ks)).toList := by
      rw [toList_dotted]
      intro hmem
      rcases mem_of_mem_intercalate hmem with rfl | ⟨part, hpart, hc⟩
      · exact hsep rfl
      · obtain ⟨key, hkey, rfl⟩ := List.mem_map.mp hpart
        exact hall key hkey hc
    have hcomma := hnone ',' (by decide) fun key hkey hmem => (h.separators key hkey _ hmem).2.1 rfl
    have hcolon := hnone ':' (by decide) fun key hkey hmem => (h.separators key hkey _ hmem).2.2 rfl
    have hstrip : strip (dotted (k :: ks)).toList = (dotted (k :: ks)).toList := by
      rw [strip_eq_self_iff, head?_dotted hk, getLast?_dotted_iff]
      refine ⟨fun c' hc' => ?_, h.last⟩
      obtain rfl := Option.some.inj (hc.symm.trans hc')
      exact hspace
    have hne : (dotted (k :: ks)).toList ≠ [] := by
      intro hnil
      have hhead : (dotted (k :: ks)).toList.head? = k.toList.head? := head?_dotted hk
      rw [hnil, hc] at hhead
      cases hhead
    have htok : tokens (dotted (k :: ks)) = [dotted (k :: ks)] := by
      rw [tokens, List.splitOn_eq_singleton hcomma, List.map_singleton, hstrip,
        List.filterMap_cons_some (by rw [if_neg hne]), List.filterMap_nil, String.ofList_toList]
    obtain ⟨header, hsplit⟩ := splitToken_bare (T := T) hcolon
    rw [joinKeys_cons, joinKeys_eq hk]
    refine columnKeys_eq_some.mpr ⟨_, header, _, htok, hsplit, splitText_dotted (by simp) ?_⟩
    exact fun key hkey hmem => (h.separators key hkey _ hmem).1 rfl

end Reading

/-! ## The text at a path -/

mutual

/-- The keys of each dict differ. -/
def distinctKeys : Value → Bool
  | .dict kvs => decide (kvs.map (·.1)).Nodup && distinctKeysDict kvs
  | _ => true

def distinctKeysDict : List (String × Value) → Bool
  | [] => true
  | (_, v) :: kvs => distinctKeys v && distinctKeysDict kvs

end

/-- The text at keys. -/
def textAt (T : Text) (v : Value) (ks : List String) : String :=
  match walkPath v ks with
  | none => emptyCell
  | some leaf => renderLeaf T leaf

/-- Another value at keys. -/
def setAt (x : Value) : List String → Value → Value
  | [], _ => x
  | k :: ks, .dict kvs => .dict (kvs.map fun kv => if kv.1 = k then (kv.1, setAt x ks kv.2) else kv)
  | _ :: _, v => v

/-- A record with another value at keys. -/
def setLeaf (record : Dict) (k : String) (ks : List String) (x : Value) : Dict :=
  record.map fun kv => if kv.1 = k then (kv.1, setAt x ks kv.2) else kv

/-- **A listed path gives its sample back**: as `--columns` it is a single column, which shows the
sample. -/
def Copies (T : Text) (record : Dict) (path sample : String) : Prop :=
  ∀ default, ∃ c, parseColumns T (some path) default = .ok [c] ∧ cell T record c = sample

section Walk

variable {v w x : Value} {record kvs : Dict} {k : String} {ks ks' : List String} {path sample : String}

theorem distinctKeys_of_mem (h : distinctKeysDict kvs = true) (hmem : (k, w) ∈ kvs) :
    distinctKeys w = true := by
  induction kvs with
  | nil => exact absurd hmem List.not_mem_nil
  | cons kv kvs ih =>
    obtain ⟨hkv, hkvs⟩ := Bool.and_eq_true_iff.mp h
    rcases List.mem_cons.mp hmem with rfl | hmem
    · exact hkv
    · exact ih hkvs hmem

/-- A leaf is found at its keys. -/
theorem walkPath_of_leafAt (hv : distinctKeys v = true) (h : LeafAt v ks w) :
    walkPath v ks = some w := by
  induction h with
  | leaf _ => rfl
  | @key kvs k w ks v hmem _ ih =>
    obtain ⟨hnodup, hkvs⟩ := Bool.and_eq_true_iff.mp hv
    rw [walkPath, Table.lookup_of_mem (of_decide_eq_true hnodup) hmem, Option.bind_some]
    exact ih (distinctKeys_of_mem hkvs hmem)

theorem copies_iff_columnKeys : Copies T record path sample ↔
    ∃ ks, columnKeys T path = some ks ∧ textAt T (.dict record) ks = sample := by
  have hcell (header p : String) : cell T record { header, path := p } =
      textAt T (.dict record) (splitText '.' p) := by
    unfold cell textAt pathLeaf
    cases walkPath (.dict record) (splitText '.' p) <;> rfl
  constructor
  · intro h
    obtain ⟨c, hc, hsample⟩ := h []
    obtain ⟨token, header, p, htok, hsplit, rfl⟩ := parseColumns_singleton.mp hc
    exact ⟨_, columnKeys_eq_some.mpr ⟨token, header, p, htok, hsplit, rfl⟩, hcell header p ▸ hsample⟩
  · rintro ⟨ks, hks, hsample⟩ default
    obtain ⟨token, header, p, htok, hsplit, rfl⟩ := columnKeys_eq_some.mp hks
    exact ⟨_, parseColumns_singleton.mpr ⟨token, header, p, htok, hsplit, rfl⟩,
      (hcell header p).trans hsample⟩

theorem lookup_setLeaf (k' : String) : (setLeaf kvs k ks x).lookup k' =
    if k' = k then (kvs.lookup k).map (setAt x ks) else kvs.lookup k' := by
  induction kvs with
  | nil => simp [setLeaf]
  | cons kv kvs ih =>
    obtain ⟨key, v⟩ := kv
    rw [setLeaf, List.map_cons, ← setLeaf]
    by_cases hkey : key = k
    · rw [if_pos hkey, List.lookup_cons, List.lookup_cons, List.lookup_cons, ih, hkey]
      by_cases hk : k' = k
      · simp [hk]
      · have hne : (k' == k) = false := by simpa using hk
        simp [hk, hne]
    · rw [if_neg hkey, List.lookup_cons, List.lookup_cons, List.lookup_cons, ih]
      by_cases hk : k' = k
      · have hne : (k == key) = false := by simpa using Ne.symm hkey
        simp [hk, hne]
      · simp [hk]

/-- The new value is found at the keys. -/
theorem walkPath_setAt (h : walkPath v ks = some w) : walkPath (setAt x ks v) ks = some x := by
  induction ks generalizing v with
  | nil => rfl
  | cons k ks ih => cases v with
    | dict kvs =>
      rw [walkPath] at h
      obtain ⟨w', hw', h⟩ := Option.bind_eq_some_iff.mp h
      change ((setLeaf kvs k ks x).lookup k).bind (walkPath · ks) = some x
      rw [lookup_setLeaf, if_pos rfl, hw', Option.map_some, Option.bind_some]
      exact ih h
    | _ => cases h

/-- The text at other keys does not depend on the new value, or is that of a dict that holds it. -/
theorem textAt_setAt (h : walkPath v ks = some w) (hne : ks' ≠ ks) :
    textAt T (setAt (.int 0) ks v) ks' = textAt T (setAt (.int 1) ks v) ks' ∨
      ∀ n, (textAt T (setAt (.int n) ks v) ks').toList.head? = some '\x7b' := by
  induction ks generalizing v ks' with
  | nil => cases ks' with
    | nil => exact absurd rfl hne
    | cons k' ks' => exact .inl rfl
  | cons k ks ih => cases v with
    | dict kvs =>
      rw [walkPath] at h
      obtain ⟨w', hw', h⟩ := Option.bind_eq_some_iff.mp h
      cases ks' with
      | nil =>
        refine .inr fun n => ?_
        cases kvs with
        | nil => cases hw'
        | cons kv kvs =>
          change (T.dumps (.dict _)).toList.head? = _
          rw [Text.dumps, String.toList_append, String.toList_append]
          rfl
      | cons k' ks' =>
        have htext (n : ℤ) : textAt T (setAt (.int n) (k :: ks) (.dict kvs)) (k' :: ks') =
            if k' = k then textAt T (setAt (.int n) ks w') ks' else textAt T (.dict kvs) (k' :: ks') := by
          change (match ((setLeaf kvs k ks (.int n)).lookup k').bind (walkPath · ks') with
            | none => emptyCell
            | some leaf => renderLeaf T leaf) = _
          rw [lookup_setLeaf, hw']
          split_ifs with hk
          · rfl
          · rfl
        simp only [htext]
        by_cases hk : k' = k
        · simp only [if_pos hk]
          exact ih h fun heq => hne (by rw [hk, heq])
        · simp only [if_neg hk, true_or]
    | _ => cases h

end Walk

/-- The paths of a record give their samples back exactly when each is of plain keys, or is read as
other keys that lead to the same text. -/
theorem listed_copies_iff (T : Text) {record : Dict} (h : distinctKeys (.dict record) = true) :
    (∀ path sample, (path, sample) ∈ flattenPaths T record → Copies T record path sample) ↔
      ∀ k ks v, LeafAt (.dict record) (k :: ks) v → PlainKeys (k :: ks) ∨
        ∃ ks', ks' ≠ k :: ks ∧ columnKeys T (joinKeys "" (k :: ks)) = some ks' ∧
          textAt T (.dict record) ks' = renderLeaf T v := by
  constructor
  · intro hall k ks v hleaf
    obtain ⟨ks', hkeys, htext⟩ := copies_iff_columnKeys.mp
      (hall _ _ (mem_flattenPaths.mpr ⟨k, ks, v, hleaf, rfl, rfl⟩))
    by_cases hks : ks' = k :: ks
    · exact .inl (columnKeys_eq_some_iff.mp (hks ▸ hkeys))
    · exact .inr ⟨ks', hks, hkeys, htext⟩
  · intro hall path sample hmem
    obtain ⟨k, ks, v, hleaf, rfl, rfl⟩ := mem_flattenPaths.mp hmem
    rw [copies_iff_columnKeys]
    rcases hall k ks v hleaf with hplain | ⟨ks', -, hsame⟩
    · refine ⟨k :: ks, columnKeys_eq_some_iff.mpr hplain, ?_⟩
      rw [textAt, walkPath_of_leafAt h hleaf]
    · exact ⟨ks', hsame⟩

/-- **Plain keys give the listed samples back. And only plain keys give back every value.** -/
theorem copies_iff (T : Text) {record : Dict} (h : distinctKeys (.dict record) = true) :
    ((∀ k ks v, LeafAt (.dict record) (k :: ks) v → PlainKeys (k :: ks)) →
      ∀ path sample, (path, sample) ∈ flattenPaths T record → Copies T record path sample) ∧
    ∀ k ks v, LeafAt (.dict record) (k :: ks) v →
      ((∀ x, IsLeaf x → Copies T (setLeaf record k ks x) (joinKeys "" (k :: ks)) (renderLeaf T x)) ↔
        PlainKeys (k :: ks)) := by
  constructor
  · intro hplain
    exact (listed_copies_iff T h).mpr fun k ks v hleaf => .inl (hplain k ks v hleaf)
  · intro k ks v hleaf
    have hwalk := walkPath_of_leafAt h hleaf
    constructor
    · intro hall
      rw [← columnKeys_eq_some_iff (T := T)]
      by_contra hkeys
      obtain ⟨ks₀, hks₀, htext₀⟩ := copies_iff_columnKeys.mp (hall (.int 0) nofun)
      obtain ⟨ks₁, hks₁, htext₁⟩ := copies_iff_columnKeys.mp (hall (.int 1) nofun)
      obtain rfl := Option.some.inj (hks₀.symm.trans hks₁)
      have hne : ks₀ ≠ k :: ks := fun heq => hkeys (heq ▸ hks₀)
      rcases textAt_setAt (T := T) hwalk hne with heq | hdict
      · have h01 : toString (0 : ℤ) = toString (1 : ℤ) := htext₀.symm.trans (heq.trans htext₁)
        exact absurd h01 (by decide)
      · have hhead := hdict 0
        change (textAt T (.dict (setLeaf record k ks (.int 0))) ks₀).toList.head? = _ at hhead
        rw [htext₀] at hhead
        have hzero : (toString (0 : ℤ)).toList.head? = some '\x7b' := hhead
        exact absurd hzero (by decide)
    · intro hplain x hx
      refine copies_iff_columnKeys.mpr ⟨k :: ks, columnKeys_eq_some_iff.mpr hplain, ?_⟩
      have hset := walkPath_setAt (x := x) hwalk
      rw [textAt]
      change (match walkPath (setAt x (k :: ks) (.dict record)) (k :: ks) with
        | none => emptyCell
        | some leaf => renderLeaf T leaf) = _
      rw [hset]

/-- A path of two keys. -/
theorem copies_iff_sample : Copies asciiText [("a", .dict [("b", .int 7)])] "a.b" "7" := by
  have hleaf : LeafAt (.dict [("a", .dict [("b", .int 1)])]) ["a", "b"] (.int 1) :=
    .key List.mem_cons_self (.key List.mem_cons_self (.leaf nofun))
  have hplain : PlainKeys ["a", "b"] :=
    ⟨by simp, by rintro _ ⟨⟩; exact ⟨'a', rfl, by decide⟩, by rintro _ ⟨⟩ _ ⟨⟩; decide⟩
  have h := ((@copies_iff asciiText [("a", .dict [("b", .int 1)])] (by decide)).2
    "a" ["b"] (.int 1) hleaf).mpr hplain (.int 7) nofun
  exact h

/-- The path of a key with a dot is listed, and shows nothing. -/
theorem dotted_key_lost : ¬ ∀ path sample, (path, sample) ∈ flattenPaths asciiText [("a.b", .int 1)] →
    Copies asciiText [("a.b", .int 1)] path sample := by
  intro hall
  have hlisted : flattenPaths asciiText [("a.b", .int 1)] = [("a.b", "1")] := by decide +kernel
  have hkeys : columnKeys asciiText "a.b" = some ["a", "b"] := by decide +kernel
  obtain ⟨ks, hks, htext⟩ := copies_iff_columnKeys.mp
    (hall "a.b" "1" (hlisted ▸ List.mem_cons_self))
  obtain rfl := Option.some.inj (hkeys.symm.trans hks)
  exact absurd htext (by decide)

end OpenMagpie
